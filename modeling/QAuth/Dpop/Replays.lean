import Mathlib.Tactic.Linarith
import Mathlib.Tactic.NormNum
import QAuth.Dpop.Proof
import QAuth.Foundation.Run
import QAuth.Foundation.Table

/-!
# A proof is accepted once

Any number of nodes verify proofs against one replay store. A node reads its clock first, which may
be ahead of another's by as much as one window, and records the proof up to a second later. The
store keeps a key until its time is past, the last millisecond included.
-/

namespace QAuth.Dpop

open Transition

/-! ### The replay store -/

/-- The time a proof is recorded for, in milliseconds, as `recordOnce` asks for it. -/
def recordTtl (iatWindowSeconds : ℕ) : ℕ := (3 * iatWindowSeconds + 1) * 1000

/-- Keys, with the last moment of each. -/
abbrev ReplayStore := List (String × ℤ)

namespace ReplayStore

def Has (store : ReplayStore) (now : ℤ) (key : String) : Prop :=
  ∃ last, store.lookup key = some last ∧ now ≤ last

instance (store : ReplayStore) (now : ℤ) (key : String) : Decidable (store.Has now key) :=
  decidable_of_iff ((store.lookup key).any (now ≤ ·) = true) (by
    cases h : store.lookup key <;> simp [Has, h])

/-- `SET <key> 1 PX <ttl> NX`, and whether it set the key. -/
def record (store : ReplayStore) (now : ℤ) (key : String) (ttlMs : ℕ) : Bool × ReplayStore :=
  if store.Has now key then (false, store) else (true, Table.upsert store key (now + max 1 ttlMs))

end ReplayStore

/-! ### Verifications beside one another -/

/-- A verification that has yet to record its proof. -/
structure Verification where
  node : ℕ
  /-- When its node read the clock. -/
  startedAt : ℤ
  proof : CheckedProof

/-- A proof that was accepted, and when it was recorded. -/
structure Acceptance where
  proof : CheckedProof
  recordedAt : ℤ

structure Replays where
  /-- The time, in milliseconds. -/
  now : ℤ
  store : ReplayStore
  verifications : List Verification
  /-- The last one first. -/
  accepted : List Acceptance

inductive ReplayAction
  | pass (ms : ℕ)
  /-- A node reads its clock and checks a proof. -/
  | verify (node : ℕ) (nonces : Option DpopNonceSource) (check : DpopProofCheck)
  /-- The store takes the record; what it answers may come too late. -/
  | record (i : ℕ) (inTime : Bool)
  /-- The store does not take the record. -/
  | fail (i : ℕ)

namespace Replays

section Step

/- By how many milliseconds each node's clock is ahead. -/
variable (v : DpopVerifier) (ahead : ℕ → ℤ)

/-- One thing that can happen. -/
def step (s : Replays) : ReplayAction → Option Replays
  | .pass ms => some { s with now := s.now + ms }
  | .verify node nonces check =>
    match v.check nonces (s.now + ahead node) check with
    | .ok proof => some { s with verifications := s.verifications ++ [⟨node, s.now, proof⟩] }
    | .error _ => some s
  | .record i inTime =>
    s.verifications[i]?.bind fun call ↦
      if s.now ≤ call.startedAt + 1000 then
        let (firstUse, store) :=
          s.store.record s.now (v.replayKey call.proof) (recordTtl v.iatWindowSeconds)
        some { s with
          store := store
          verifications := s.verifications.eraseIdx i
          accepted := if firstUse && inTime then ⟨call.proof, s.now⟩ :: s.accepted else s.accepted }
      else none
  | .fail i =>
    s.verifications[i]?.bind fun _ ↦ some { s with verifications := s.verifications.eraseIdx i }

end Step

end Replays

variable {v : DpopVerifier} {ahead : ℕ → ℤ} {s t : Replays} {a : ReplayAction} {x y : Acceptance}
  {call : Verification} {store : ReplayStore} {now : ℤ} {key : String}

/-- A verification passed the check at its start. -/
structure Started (v : DpopVerifier) (ahead : ℕ → ℤ) (now : ℤ) (call : Verification) : Prop where
  within : |((call.startedAt + ahead call.node : ℤ) : ℚ) / 1000 - call.proof.issuedAt| ≤
    v.iatWindowSeconds
  past : call.startedAt ≤ now

/-- An acceptance was recorded within a second of such a check, and the store keeps it. -/
structure Kept (v : DpopVerifier) (ahead : ℕ → ℤ) (now : ℤ) (store : ReplayStore)
    (x : Acceptance) : Prop where
  started : ∃ call, Started v ahead x.recordedAt call ∧ call.proof = x.proof ∧
    x.recordedAt ≤ call.startedAt + 1000
  past : x.recordedAt ≤ now
  has : now ≤ x.recordedAt + recordTtl v.iatWindowSeconds →
    ∃ last, store.lookup (v.replayKey x.proof) = some last ∧
      x.recordedAt + recordTtl v.iatWindowSeconds ≤ last

/-- The two were recorded under one key, the second one after the record of the first had ended. -/
def After (v : DpopVerifier) (y x : Acceptance) : Prop :=
  v.replayKey x.proof = v.replayKey y.proof →
    x.recordedAt + recordTtl v.iatWindowSeconds < y.recordedAt

structure Sound (v : DpopVerifier) (ahead : ℕ → ℤ) (s : Replays) : Prop where
  verifications : ∀ call ∈ s.verifications, Started v ahead s.now call
  accepted : ∀ x ∈ s.accepted, Kept v ahead s.now s.store x
  after : s.accepted.Pairwise (After v)

theorem Started.mono {now' : ℤ} (h : Started v ahead now call) (hle : now ≤ now') :
    Started v ahead now' call :=
  ⟨h.within, h.past.trans hle⟩

theorem Kept.mono {now' : ℤ} (h : Kept v ahead now store x) (hle : now ≤ now') :
    Kept v ahead now' store x :=
  ⟨h.started, h.past.trans hle, fun hlive ↦ h.has (hle.trans hlive)⟩

theorem record_of_has {ttlMs : ℕ} (h : store.Has now key) :
    store.record now key ttlMs = (false, store) :=
  if_pos h

theorem record_of_not_has {ttlMs : ℕ} (h : ¬store.Has now key) :
    store.record now key ttlMs = (true, Table.upsert store key (now + max 1 ttlMs)) :=
  if_neg h

theorem max_recordTtl (windowSeconds : ℕ) :
    max 1 (recordTtl windowSeconds) = recordTtl windowSeconds := by
  rw [recordTtl]
  omega

/-- A record lasts for what is asked. -/
theorem lookup_record_self {ttlMs : ℕ} :
    (Table.upsert store key (now + max 1 ttlMs)).lookup key = some (now + max 1 ttlMs) :=
  Table.lookup_upsert_self

/-- A new record leaves those that have not ended. -/
theorem Kept.record (h : Kept v ahead now store x) (hnot : ¬store.Has now key) :
    Kept v ahead now (Table.upsert store key (now + max 1 (recordTtl v.iatWindowSeconds))) x := by
  refine ⟨h.started, h.past, fun hlive ↦ ?_⟩
  obtain ⟨last, hlookup, hlast⟩ := h.has hlive
  have hne : v.replayKey x.proof ≠ key := by
    rintro rfl
    exact hnot ⟨last, hlookup, hlive.trans hlast⟩
  exact ⟨last, by rw [Table.lookup_upsert_ne hne, hlookup], hlast⟩

/-- Where a key is free, what was recorded under it has ended. -/
theorem Kept.ended (h : Kept v ahead now store x) (hnot : ¬store.Has now (v.replayKey x.proof)) :
    x.recordedAt + recordTtl v.iatWindowSeconds < now := by
  by_contra hlive
  obtain ⟨last, hlookup, hlast⟩ := h.has (not_lt.mp hlive)
  exact hnot ⟨last, hlookup, (not_lt.mp hlive).trans hlast⟩

/-- The store takes the record of a verification, within a second of its start. -/
theorem Sound.recorded (hs : Sound v ahead s) {i : ℕ} {inTime : Bool}
    (hget : s.verifications[i]? = some call) (hdelay : s.now ≤ call.startedAt + 1000) :
    Sound v ahead
      (let (firstUse, store) :=
        s.store.record s.now (v.replayKey call.proof) (recordTtl v.iatWindowSeconds)
      { s with
        store := store
        verifications := s.verifications.eraseIdx i
        accepted := if firstUse && inTime then ⟨call.proof, s.now⟩ :: s.accepted else s.accepted }) := by
  have hcalls : ∀ call' ∈ s.verifications.eraseIdx i, Started v ahead s.now call' :=
    fun call' hcall' ↦ hs.verifications call' (List.mem_of_mem_eraseIdx hcall')
  by_cases hhas : s.store.Has s.now (v.replayKey call.proof)
  · rw [record_of_has hhas]
    exact ⟨hcalls, hs.accepted, hs.after⟩
  · rw [record_of_not_has hhas]
    have hold : ∀ x ∈ s.accepted, Kept v ahead s.now (Table.upsert s.store (v.replayKey call.proof)
        (s.now + max 1 (recordTtl v.iatWindowSeconds))) x :=
      fun x hx ↦ (hs.accepted x hx).record hhas
    cases inTime with
    | false => exact ⟨hcalls, hold, hs.after⟩
    | true =>
      refine ⟨hcalls, List.forall_mem_cons.mpr ⟨⟨?_, le_rfl, fun _ ↦ ?_⟩, hold⟩,
        List.pairwise_cons.mpr ⟨fun x hx hkey ↦ ?_, hs.after⟩⟩
      · exact ⟨call, hs.verifications call (List.mem_of_getElem? hget), rfl, hdelay⟩
      · refine ⟨_, lookup_record_self, ?_⟩
        rw [max_recordTtl]
      · exact (hs.accepted x hx).ended (by rwa [hkey])

section Sample

def sampleCheck (proof : String) : DpopProofCheck :=
  ⟨[proof], "POST", "https://as.example/token", none, none, false⟩

/-- A proof is accepted as early as can be, and refused where it is verified as late as can be.
Then its key signs another proof with the same `jti`. -/
def sampleActions : List ReplayAction :=
  [.verify 1 none (sampleCheck "h.first.s"), .record 0 true, .pass 180000,
    .verify 0 none (sampleCheck "h.first.s"), .pass 1000, .record 0 true, .pass 80000,
    .verify 0 none (sampleCheck "h.second.s"), .record 0 true]

def sampleStart : Replays := ⟨880000, [], [], []⟩

end Sample

end QAuth.Dpop
