import QAuth.Delivery.Queue

/-!
# A claim is fenced by its attempt

The attempt count is the fencing token of a claim, and a hold takes it back, so a later claim can
carry the same number. What keeps the claims apart is that a claim makes at most one statement:
the claims still held of a row have distinct attempts, none above the row's count, and only the
one at the count can find the row.
-/

namespace QAuth.Delivery

open Events Transition

namespace Queue

/-- The claims held and the rows they name. -/
structure Fenced (s : Queue) : Prop where
  ids : (s.fan.deliveries.map (·.id)).Nodup
  refs : (s.inFlight.map (·.ref)).Nodup
  serials : (s.inFlight.map (·.serial)).Nodup
  serial_lt : ∀ c ∈ s.inFlight, c.serial < s.serials
  held : ∀ c ∈ s.inFlight, ∃ r ∈ s.fan.deliveries,
    r.id = c.ref.id ∧ c.ref.attempt ≤ r.attemptCount

/-- A statement a worker can make of a claim. -/
inductive ClaimStatement
  | record (outcome : EventDeliveryAttemptRecord) (now : ℕ)
  | release (now : ℕ)

/-- The table after a statement of a claim. -/
def ClaimStatement.apply (statement : ClaimStatement) (ref : EventDeliveryClaimRef)
    (t : List EventDelivery) : List EventDelivery :=
  match statement with
  | .record outcome now => Delivery.record ref outcome now t
  | .release now => Delivery.release [ref] now t

/-- Some statement of the claim would change the table. -/
def CanChange (s : Queue) (c : InFlight) : Prop :=
  ∃ statement : ClaimStatement, statement.apply c.ref s.fan.deliveries ≠ s.fan.deliveries

variable {settings : Settings} {s t : Queue} {a : Action} {c : InFlight} {r : EventDelivery}

/-- A claim can change the table just when it still holds its row. -/
theorem canChange_iff : s.CanChange c ↔ ∃ r ∈ s.fan.deliveries, claimed c.ref r = true := by
  constructor
  · rintro ⟨statement, h⟩
    by_contra hnone
    simp only [not_exists, not_and, Bool.not_eq_true] at hnone
    refine h ?_
    cases statement with
    | record outcome now =>
      refine Table.updateWhere_eq_self_iff.mpr fun r hr hc ↦ ?_
      rw [hnone r hr] at hc
      cases hc
    | release now =>
      refine Table.updateWhere_eq_self_iff.mpr fun r hr hc ↦ ?_
      simp only [List.any_cons, List.any_nil, Bool.or_false, hnone r hr] at hc
      cases hc
  · rintro ⟨r, hr, hc⟩
    refine ⟨.release 0, fun h ↦ ?_⟩
    have hrow := Table.updateWhere_eq_self_iff.mp h r hr (by simp [hc])
    have hlocked := (claimed_iff.mp hc).2.2.2
    rw [← hrow] at hlocked
    cases hlocked

/-! ### The claims a step leaves -/

/-- A claim held after a step was held before it, perhaps at an earlier stage, or is new. -/
theorem inFlight_cases (h : s.step settings a = some t) (hc : c ∈ t.inFlight) :
    (∃ c₀ ∈ s.inFlight, c₀.serial = c.serial ∧ c₀.ref = c.ref) ∨ s.serials ≤ c.serial := by
  cases step_cases h with
  | writer | fanOut => exact .inl ⟨c, hc, rfl, rfl⟩
  | worker a t step =>
    cases step with
    | claim worker request locked =>
      rcases List.mem_append.mp hc with hc | hc
      · exact .inl ⟨c, hc, rfl, rfl⟩
      · exact .inr (serial_of_mem_newClaims hc).1
    | advance a p stage =>
      obtain ⟨c₀, h₀, rfl⟩ := Table.mem_updateWhere.mp hc
      refine .inl ⟨c₀, h₀, ?_⟩
      split <;> exact ⟨rfl, rfl⟩
    | record | release | lose => exact .inl ⟨c, (List.mem_filter.mp hc).1, rfl, rfl⟩

theorem serials_le (h : s.step settings a = some t) : s.serials ≤ t.serials := by
  cases step_cases h with
  | writer | fanOut => exact le_rfl
  | worker a t step =>
    cases step with
    | claim => exact Nat.le_add_right _ _
    | advance | record | release | lose => exact le_rfl

namespace Fenced

/-- The row a held claim names, and its attempt. -/
theorem attempt_le (hs : s.Fenced) (hc : c ∈ s.inFlight) (hr : r ∈ s.fan.deliveries)
    (hid : r.id = c.ref.id) : c.ref.attempt ≤ r.attemptCount := by
  obtain ⟨r', hr', hid', hle⟩ := hs.held c hc
  rwa [Table.eq_of_key_eq hs.ids hr hr' (hid.trans hid'.symm)]

/-- Two claims that hold the same row are one. -/
theorem eq_of_claimed (hs : s.Fenced) {c' : InFlight} (hc : c ∈ s.inFlight)
    (hc' : c' ∈ s.inFlight) {r' : EventDelivery} (hr : r ∈ s.fan.deliveries)
    (hr' : r' ∈ s.fan.deliveries) (hid : c.ref.id = c'.ref.id) (h : claimed c.ref r = true)
    (h' : claimed c'.ref r' = true) : c = c' := by
  obtain ⟨hrid, hcount, -⟩ := claimed_iff.mp h
  obtain ⟨hrid', hcount', -⟩ := claimed_iff.mp h'
  obtain rfl : r = r' := Table.eq_of_key_eq hs.ids hr hr' (by rw [hrid, hrid', hid])
  refine Table.eq_of_key_eq hs.refs hc hc' ?_
  cases hcr : c.ref
  cases hcr' : c'.ref
  simp_all

/-- A row found, after a step, by a claim made before it was left alone by the step: a claim
counts an attempt past every claim held, and an outcome or a release takes the lease away. -/
theorem mem_of_claimed (hs : s.Fenced) (h : s.step settings a = some t) (hc : c ∈ s.inFlight)
    (hr : r ∈ t.fan.deliveries) (hclaimed : claimed c.ref r = true) : r ∈ s.fan.deliveries := by
  obtain ⟨hid, hcount, -, hlocked⟩ := claimed_iff.mp hclaimed
  cases step_cases h with
  | writer => exact hr
  | fanOut a fan step =>
    refine ((FanOutState.step_addsRows step).added r hr).resolve_right fun hnew ↦ ?_
    rw [hnew.1] at hlocked
    cases hlocked
  | worker a t step =>
    cases step with
    | claim worker request locked =>
      rcases claim_cases hr with ⟨hr, -⟩ | ⟨r₀, hr₀, -, rfl⟩
      · exact hr
      · have hle := hs.attempt_le hc hr₀ hid
        simp only [claimRow] at hcount hlocked
        split at hcount
        · omega
        · simp_all
    | advance => exact hr
    | record c' outcome now =>
      rcases record_cases hr with ⟨hr, -⟩ | ⟨r₀, -, -, rfl⟩
      · exact hr
      · simp at hlocked
    | release claims now =>
      rcases release_cases hr with ⟨hr, -⟩ | ⟨r₀, -, -, rfl⟩
      · exact hr
      · cases hlocked
    | lose => exact hr

/-! ### Every step keeps the claims fenced -/

/-- The new claims of a step name the rows it leased, each once. -/
private theorem claimRefs_nodup {events : List Event} {request : EventDeliveryClaimRequest}
    {locked : List Uuid} {deliveries : List EventDelivery}
    (h : (deliveries.map (·.id)).Nodup) :
    (claimRefs events request locked deliveries).Nodup := by
  have hids : ((claim events request locked deliveries).map (·.id)).Nodup := by
    rwa [ids_eq_of_origins claim_origins]
  refine List.Nodup.of_map (·.id) ?_
  rw [claimRefs, List.map_map]
  exact (List.filter_sublist.map _).nodup hids

/-- A new claim's attempt is one past the count of a row that was there. -/
private theorem exists_of_mem_claimRefs {events : List Event}
    {request : EventDeliveryClaimRequest} {locked : List Uuid} {deliveries : List EventDelivery}
    {ref : EventDeliveryClaimRef} (h : ref ∈ claimRefs events request locked deliveries) :
    (∃ r ∈ claim events request locked deliveries, r.id = ref.id ∧ r.attemptCount = ref.attempt) ∧
      ∃ r₀ ∈ deliveries, r₀.id = ref.id ∧ r₀.attemptCount < request.maxAttempts ∧
        ref.attempt = r₀.attemptCount + 1 := by
  obtain ⟨r, hr, rfl⟩ := List.mem_map.mp h
  obtain ⟨hmem, hp⟩ := List.mem_filter.mp hr
  simp only [Bool.and_eq_true, List.contains_iff_mem, decide_eq_true_eq] at hp
  refine ⟨⟨r, hmem, rfl, rfl⟩, ?_⟩
  rcases claim_cases hmem with ⟨-, hout⟩ | ⟨r₀, hr₀, -, rfl⟩
  · exact absurd hp.1.1 hout
  · refine ⟨r₀, hr₀, rfl, ?_⟩
    have hpending := hp.1.2
    simp only [claimRow] at hpending ⊢
    split at hpending
    · rename_i hlt
      simp [hlt]
    · cases hpending

/-- Keeping some of the claims, perhaps at other stages, keeps them fenced as long as their rows
keep enough attempts. -/
private theorem of_sublist (hs : s.Fenced) {fan : FanOutState} {inFlight : List InFlight}
    (hids : (fan.deliveries.map (·.id)).Nodup)
    (hrefs : (inFlight.map (·.ref)).Sublist (s.inFlight.map (·.ref)))
    (hserials : (inFlight.map (·.serial)).Sublist (s.inFlight.map (·.serial)))
    (hheld : ∀ c ∈ inFlight, ∃ r ∈ fan.deliveries,
      r.id = c.ref.id ∧ c.ref.attempt ≤ r.attemptCount) :
    Fenced ⟨fan, inFlight, s.serials⟩ where
  ids := hids
  refs := hrefs.nodup hs.refs
  serials := hserials.nodup hs.serials
  serial_lt c hc := by
    obtain ⟨c₀, h₀, heq⟩ := List.mem_map.mp (hserials.mem (List.mem_map_of_mem hc))
    rw [← heq]
    exact hs.serial_lt c₀ h₀
  held := hheld

private theorem claim_fenced (hs : s.Fenced) (worker : ℕ) (request : EventDeliveryClaimRequest)
    (locked : List Uuid) :
    Fenced {
      fan := { s.fan with
        deliveries := claim s.fan.log.events request locked s.fan.deliveries }
      inFlight := s.inFlight ++ newClaims worker s.serials
        (claimRefs s.fan.log.events request locked s.fan.deliveries)
      serials := s.serials +
        (claimRefs s.fan.log.events request locked s.fan.deliveries).length } := by
  set refs := claimRefs s.fan.log.events request locked s.fan.deliveries with hrefs
  refine ⟨?_, ?_, ?_, ?_, ?_⟩
  · simp only [ids_eq_of_origins claim_origins]
    exact hs.ids
  · rw [List.map_append, newClaims_refs, List.nodup_append]
    refine ⟨hs.refs, claimRefs_nodup hs.ids, ?_⟩
    intro ref hold ref' hnew heq
    obtain ⟨c, hc, rfl⟩ := List.mem_map.mp hold
    obtain ⟨-, r₀, hr₀, hid, -, hattempt⟩ := exists_of_mem_claimRefs hnew
    have hle := hs.attempt_le hc hr₀ (by rw [hid, heq])
    rw [heq] at hle
    omega
  · rw [List.map_append, newClaims_serials, List.nodup_append]
    refine ⟨hs.serials, List.nodup_range', ?_⟩
    intro i hold j hnew heq
    obtain ⟨c, hc, rfl⟩ := List.mem_map.mp hold
    have := hs.serial_lt c hc
    have := (List.mem_range'_1.mp hnew).1
    omega
  · intro c hc
    rcases List.mem_append.mp hc with hc | hc
    · exact (hs.serial_lt c hc).trans_le (Nat.le_add_right _ _)
    · exact (serial_of_mem_newClaims hc).2
  · intro c hc
    rcases List.mem_append.mp hc with hc | hc
    · obtain ⟨r, hr, hid, hle⟩ := hs.held c hc
      by_cases hp : (picked s.fan.log.events request locked s.fan.deliveries).contains r.id
      · refine ⟨_, Table.mem_updateWhere_of_true hr hp, hid, hle.trans ?_⟩
        simp only [claimRow]
        split <;> omega
      · exact ⟨r, Table.mem_updateWhere_of_false hr (by simpa using hp), hid, hle⟩
    · have hmem : c.ref ∈ (newClaims worker s.serials refs).map (·.ref) :=
        List.mem_map_of_mem hc
      rw [newClaims_refs] at hmem
      obtain ⟨⟨r, hr, hid, hcount⟩, -⟩ := exists_of_mem_claimRefs hmem
      exact ⟨r, hr, hid, hcount.ge⟩

/-- A claim that leaves with its own statement takes at most its own attempt back. -/
private theorem held_of_record (hs : s.Fenced) {c : InFlight} (hc : c ∈ s.inFlight)
    {outcome : EventDeliveryAttemptRecord} {now : ℕ} {c' : InFlight} (hc' : c' ∈ s.inFlight)
    (hne : c' ≠ c) : ∃ r ∈ record c.ref outcome now s.fan.deliveries,
      r.id = c'.ref.id ∧ c'.ref.attempt ≤ r.attemptCount := by
  obtain ⟨r, hr, hid, hle⟩ := hs.held c' hc'
  cases hclaimed : claimed c.ref r with
  | false => exact ⟨r, Table.mem_updateWhere_of_false hr hclaimed, hid, hle⟩
  | true =>
    obtain ⟨hrid, hcount, -⟩ := claimed_iff.mp hclaimed
    have hlt : c'.ref.attempt ≠ r.attemptCount := by
      intro heq
      refine hne (Table.eq_of_key_eq hs.refs hc' hc ?_)
      cases hcr : c.ref
      cases hcr' : c'.ref
      simp_all
    refine ⟨_, Table.mem_updateWhere_of_true hr hclaimed, ?_, ?_⟩
    · rw [← hid]
      exact congrArg Prod.fst (recordRow_origin r)
    · rcases recordRow_attemptCount outcome now r with h | h <;> omega

theorem step (hs : s.Fenced) (h : s.step settings a = some t) : t.Fenced := by
  cases step_cases h with
  | writer => exact ⟨hs.ids, hs.refs, hs.serials, hs.serial_lt, hs.held⟩
  | fanOut a fan step =>
    have hrows := FanOutState.step_addsRows step
    refine ⟨hrows.nodup hs.ids, hs.refs, hs.serials, hs.serial_lt, fun c hc ↦ ?_⟩
    obtain ⟨r, hr, hle⟩ := hs.held c hc
    exact ⟨r, hrows.kept r hr, hle⟩
  | worker a t step =>
    cases step with
    | claim worker request locked => exact hs.claim_fenced worker request locked
    | advance a p stage =>
      refine hs.of_sublist hs.ids (by rw [InFlight.refs_setStage])
        (by rw [InFlight.serials_setStage]) fun c hc ↦ ?_
      obtain ⟨c₀, h₀, rfl⟩ := Table.mem_updateWhere.mp hc
      have := hs.held c₀ h₀
      split <;> exact this
    | record c outcome now mem =>
      refine hs.of_sublist ?_ (List.filter_sublist.map _) (List.filter_sublist.map _) ?_
      · change ((record c.ref outcome now s.fan.deliveries).map (·.id)).Nodup
        rw [ids_eq_of_origins record_origins]
        exact hs.ids
      · intro c' hc'
        obtain ⟨hmem, hne⟩ := List.mem_filter.mp hc'
        exact hs.held_of_record mem hmem (by simpa using hne)
    | release claims now =>
      refine hs.of_sublist ?_ (List.filter_sublist.map _) (List.filter_sublist.map _) ?_
      · change ((release (claims.map (·.ref)) now s.fan.deliveries).map (·.id)).Nodup
        rw [ids_eq_of_origins release_origins]
        exact hs.ids
      · intro c' hc'
        obtain ⟨r, hr, hid, hle⟩ := hs.held c' (List.mem_filter.mp hc').1
        cases hp : (claims.map (·.ref)).any fun ref ↦ claimed ref r with
        | false => exact ⟨r, Table.mem_updateWhere_of_false hr hp, hid, hle⟩
        | true => exact ⟨_, Table.mem_updateWhere_of_true hr hp, hid, hle⟩
    | lose c =>
      exact hs.of_sublist hs.ids (List.filter_sublist.map _) (List.filter_sublist.map _)
        fun c' hc' ↦ hs.held c' (List.mem_filter.mp hc').1

end Fenced

end Queue

/-- Every reachable state is fenced. -/
theorem fenced_invariant (settings : Settings) : (queueSystem settings).Invariant Queue.Fenced where
  initial s h := by
    obtain ⟨-, hdeliveries, -, hinFlight⟩ := h
    refine ⟨?_, ?_, ?_, ?_, ?_⟩ <;> simp [hdeliveries, hinFlight]
  step _ _ _ hs h := hs.step h

namespace Queue

variable {settings : Settings} {s t u : Queue} {a : Action} {as : List Action} {c : InFlight}
  {r : EventDelivery}

/-! ### What a whole run keeps -/

/-- The serial of a claim that is gone is not held again: a later claim has a later serial. -/
theorem serial_ne_of_run {n : ℕ} (hlt : n < s.serials) (hgone : ∀ c ∈ s.inFlight, c.serial ≠ n)
    (h : Run (Queue.step settings) s as t) : ∀ c ∈ t.inFlight, c.serial ≠ n := by
  induction h with
  | nil => exact hgone
  | @cons s t u a as head tail ih =>
    refine ih (hlt.trans_le (serials_le head)) fun c hc heq ↦ ?_
    rcases inFlight_cases head hc with ⟨c₀, hc₀, hserial, -⟩ | hnew
    · exact hgone c₀ hc₀ (hserial.trans heq)
    · omega

/-- A claim that cannot change its row never can again: no run gives it back what it lost. -/
theorem Fenced.not_canChange_run (hs : s.Fenced) (hc : c ∈ s.inFlight) (hstale : ¬ s.CanChange c)
    (h : Run (Queue.step settings) s as t) {c' : InFlight} (hc' : c' ∈ t.inFlight)
    (hserial : c'.serial = c.serial) : ¬ t.CanChange c' := by
  induction h generalizing c with
  | nil s =>
    rwa [Table.eq_of_key_eq hs.serials hc' hc hserial]
  | @cons s t u a as head tail ih =>
    by_cases hmem : ∃ c₁ ∈ t.inFlight, c₁.serial = c.serial
    · obtain ⟨c₁, hc₁, hserial₁⟩ := hmem
      refine ih (hs.step head) hc₁ (fun hcan ↦ hstale ?_) hc' (hserial.trans hserial₁.symm)
      obtain ⟨c₀, hc₀, hserial₀, href₀⟩ := (inFlight_cases head hc₁).resolve_right
        (by have := hs.serial_lt c hc; omega)
      obtain rfl : c₀ = c := Table.eq_of_key_eq hs.serials hc₀ hc (hserial₀.trans hserial₁)
      obtain ⟨r, hr, hclaimed⟩ := canChange_iff.mp hcan
      rw [← href₀] at hclaimed
      exact canChange_iff.mpr ⟨r, hs.mem_of_claimed head hc₀ hr hclaimed, hclaimed⟩
    · exact absurd hserial (serial_ne_of_run ((hs.serial_lt c hc).trans_le (serials_le head))
        (by simpa using hmem) tail c' hc')

theorem Fenced.not_canChange_of_changed (hs : s.Fenced) (hc : c ∈ s.inFlight)
    (h : s.step settings a = some t) (hr : r ∈ s.fan.deliveries) (hid : r.id = c.ref.id)
    (hchanged : r ∉ t.fan.deliveries) {c' : InFlight} (hc' : c' ∈ t.inFlight)
    (hserial : c'.serial = c.serial) : ¬ t.CanChange c' := by
  intro hcan
  obtain ⟨c₀, hc₀, hserial₀, href₀⟩ := (inFlight_cases h hc').resolve_right
    (by have := hs.serial_lt c hc; omega)
  obtain rfl : c₀ = c := Table.eq_of_key_eq hs.serials hc₀ hc (hserial₀.trans hserial)
  obtain ⟨r', hr', hclaimed⟩ := canChange_iff.mp hcan
  rw [← href₀] at hclaimed
  have hmem := hs.mem_of_claimed h hc hr' hclaimed
  have heq : r' = r :=
    Table.eq_of_key_eq hs.ids hmem hr ((claimed_iff.mp hclaimed).1.trans hid.symm)
  exact hchanged (heq ▸ hr')

/-- A step that no claim exceeds the maximum with keeps every count within it. -/
theorem attemptCount_le_step {max : ℕ} (hmax : ∀ worker, settings.maxAttempts worker ≤ max)
    (hs : ∀ r ∈ s.fan.deliveries, r.attemptCount ≤ max) (h : s.step settings a = some t) :
    ∀ r ∈ t.fan.deliveries, r.attemptCount ≤ max := by
  intro r hr
  cases step_cases h with
  | writer => exact hs r hr
  | fanOut a fan step =>
    rcases (FanOutState.step_addsRows step).added r hr with hr | hnew
    · exact hs r hr
    · omega
  | worker a t step =>
    cases step with
    | claim worker request locked hrequest =>
      rcases claim_cases hr with ⟨hr, -⟩ | ⟨r₀, hr₀, -, rfl⟩
      · exact hs r hr
      · have := hs r₀ hr₀
        have := hmax worker
        simp only [claimRow]
        split <;> omega
    | advance | lose => exact hs r hr
    | record c outcome now =>
      rcases record_cases hr with ⟨hr, -⟩ | ⟨r₀, hr₀, -, rfl⟩
      · exact hs r hr
      · have := hs r₀ hr₀
        rcases recordRow_attemptCount outcome now r₀ with h | h <;> omega
    | release claims now =>
      rcases release_cases hr with ⟨hr, -⟩ | ⟨r₀, hr₀, -, rfl⟩
      · exact hs r hr
      · exact hs r₀ hr₀

/-- A finished row is left alone by every step. -/
theorem Fenced.finished_step (hs : s.Fenced) (hr : r ∈ s.fan.deliveries)
    (hdone : r.status ≠ .pending) (h : s.step settings a = some t) : r ∈ t.fan.deliveries := by
  have hunclaimed : ∀ ref, claimed ref r = false := by
    intro ref
    simp [claimed, hdone]
  cases step_cases h with
  | writer => exact hr
  | fanOut a fan step => exact (FanOutState.step_addsRows step).kept r hr
  | worker a t step =>
    cases step with
    | claim worker request locked =>
      refine Table.mem_updateWhere_of_false hr ?_
      by_contra hp
      obtain ⟨r', hr', hid, hpending, -⟩ := due_of_mem_picked (by simpa using hp)
      rw [Table.eq_of_key_eq hs.ids hr' hr hid] at hpending
      exact hdone hpending
    | advance | lose => exact hr
    | record c outcome now => exact Table.mem_updateWhere_of_false hr (hunclaimed _)
    | release claims now =>
      exact Table.mem_updateWhere_of_false hr (by simp [hunclaimed])

end Queue

open Queue in
/-- In every reachable state at most one of the claims held of a row can change it; a claim whose
row any statement has changed since (a later claim, a hold, a release, an outcome) changes
nothing in any later state; no count exceeds the maximum the workers run with; and no run changes
a finished row. -/
theorem outstanding_claims_fenced (settings : Settings) {s : Queue}
    (hs : (queueSystem settings).Reachable s) :
    (∀ c ∈ s.inFlight, ∀ c' ∈ s.inFlight, c.ref.id = c'.ref.id →
      s.CanChange c → s.CanChange c' → c = c') ∧
    (∀ c ∈ s.inFlight, ∀ a t, s.step settings a = some t →
      (∃ r ∈ s.fan.deliveries, r.id = c.ref.id ∧ r ∉ t.fan.deliveries) →
      ∀ as u, Run (Queue.step settings) t as u →
      ∀ c' ∈ u.inFlight, c'.serial = c.serial → ¬ u.CanChange c') ∧
    (∀ max, (∀ worker, settings.maxAttempts worker ≤ max) →
      ∀ r ∈ s.fan.deliveries, r.attemptCount ≤ max) ∧
    ∀ r ∈ s.fan.deliveries, r.status ≠ .pending →
      ∀ as t, Run (Queue.step settings) s as t → r ∈ t.fan.deliveries := by
  have hfenced := (fenced_invariant settings).reachable hs
  refine ⟨?_, ?_, ?_, ?_⟩
  · intro c hc c' hc' hid hcan hcan'
    obtain ⟨r, hr, h⟩ := canChange_iff.mp hcan
    obtain ⟨r', hr', h'⟩ := canChange_iff.mp hcan'
    exact hfenced.eq_of_claimed hc hc' hr hr' hid h h'
  · rintro c hc a t h ⟨r, hr, hid, hchanged⟩ as u hrun c' hc' hserial
    by_cases hmem : ∃ c₁ ∈ t.inFlight, c₁.serial = c.serial
    · obtain ⟨c₁, hc₁, hserial₁⟩ := hmem
      exact (hfenced.step h).not_canChange_run hc₁
        (hfenced.not_canChange_of_changed hc h hr hid hchanged hc₁ hserial₁) hrun hc'
        (hserial.trans hserial₁.symm)
    · exact absurd hserial (serial_ne_of_run
        ((hfenced.serial_lt c hc).trans_le (serials_le h)) (by simpa using hmem) hrun c' hc')
  · intro max hmax
    have hinv : (queueSystem settings).Invariant
        fun s ↦ ∀ r ∈ s.fan.deliveries, r.attemptCount ≤ max :=
      ⟨fun s h ↦ by simp [h.2.1], fun _ _ _ hs h ↦ attemptCount_le_step hmax hs h⟩
    exact hinv.reachable hs
  · intro r hr hdone as t hrun
    exact (hrun.induct (P := fun s ↦ s.Fenced ∧ r ∈ s.fan.deliveries)
      (fun _ _ _ hs h ↦ ⟨hs.1.step h, hs.1.finished_step hs.2 hdone h⟩) ⟨hfenced, hr⟩).2

open Sample in
/-- A worker's lease runs out and another worker claims the row: both claims are held, and only
one of them can change the row. -/
theorem outstanding_claims_fenced_leaseLost :
    ∃ s, exec (Queue.step settings) .empty
        (startPage request ++ writeEvent 1 5 ++ deliverPage request [100] ++ [claimOne 0 0, claimOne 1 20]) = some s ∧
      s.inFlight.length = 2 ∧
      ∀ c ∈ s.inFlight, ∀ c' ∈ s.inFlight, c.ref.id = c'.ref.id →
        s.CanChange c → s.CanChange c' → c = c' := by
  obtain ⟨s, hs⟩ : ∃ s, exec (Queue.step settings) .empty (startPage request ++ writeEvent 1 5 ++
      deliverPage request [100] ++ [claimOne 0 0, claimOne 1 20]) = some s :=
    Option.isSome_iff_exists.mp (by decide)
  have hlength : (exec (Queue.step settings) .empty (startPage request ++ writeEvent 1 5 ++
      deliverPage request [100] ++ [claimOne 0 0, claimOne 1 20])).map (·.inFlight.length) = some 2 := by
    decide
  rw [hs, Option.map_some, Option.some.injEq] at hlength
  have hreachable : (queueSystem settings).Reachable s :=
    ⟨.empty, _, Queue.empty_initial settings, .of_exec hs⟩
  exact ⟨s, hs, hlength, (outstanding_claims_fenced settings hreachable).1⟩

end QAuth.Delivery
