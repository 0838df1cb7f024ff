import QAuth.Consents.Tasks

/-!
# A consent is the union of its grants

Whatever order grants, revocations and locked reads run in, the one active consent of a user and a
client holds exactly what was granted since the last revocation, and the consent screen is skipped
only for what it holds.
-/

namespace QAuth.Consents

open Events (Uuid)
open Locks ReadCommitted Transition

variable {ν : Type} {badgeDays : ℤ} {s t : Consents ν} {a : ConsentAction ν} {i : ℕ}
  {c : RunningConsent ν} {call : ConsentCall ν} {row old r : OAuthConsent} {rows : List OAuthConsent}
  {stage : ConsentStage} {event : ConsentEvent} {events : List ConsentEvent} {pair : Uuid × Uuid}

/-! ### What each thing that happens can do -/

/-- What a statement writes over the row it holds. -/
inductive Updates : ConsentCall ν → OAuthConsent → OAuthConsent → Prop
  | merge (owner : ConsentOwner) (grant : Grant) (old : OAuthConsent) (now : ℕ) :
      Updates (.upsertGrant owner grant) old (old.merge grant now)
  | revoke (realmId id : Uuid) (old : OAuthConsent) (now : ℕ) :
      Updates (.revoke realmId id) old (old.revoked now)

/-- The row that a transaction inserts. -/
inductive Creates : ConsentCall ν → OAuthConsent → Prop
  | created (id : Uuid) (owner : ConsentOwner) (grant : Grant) (now : ℕ) :
      Creates (.upsertGrant owner grant) (.created id owner grant now)

/-- What a transaction that wrote the row has done once it commits. -/
inductive Commits : ConsentCall ν → OAuthConsent → ConsentEvent → Prop
  | granted (owner : ConsentOwner) (grant : Grant) (row : OAuthConsent) :
      Commits (.upsertGrant owner grant) row (.granted owner grant)
  | revoked (realmId id : Uuid) (row : OAuthConsent) :
      Commits (.revoke realmId id) row (.revoked row.owner.pair)

/-- The answer that a transaction takes from the row it holds, or from there being none. -/
inductive Decides (badgeDays : ℤ) : ConsentCall ν → Option OAuthConsent → Bool → Prop
  | skip (owner : ConsentOwner) (client : OAuthClientLike ν) (scopes resources : List String)
      (row : Option OAuthConsent) (now : ℕ) :
      Decides badgeDays (.skip owner client scopes resources) row
        (canSkipConsent badgeDays now row client scopes resources)

/-- A transaction that stands here holds nothing. -/
def ConsentStage.isLight : ConsentStage → Bool
  | .begun | .found _ | .absent | .ended => true
  | _ => false

/-- No row of the user and the client is active. -/
def NoneActive (rows : List OAuthConsent) (pair : Uuid × Uuid) : Prop :=
  ∀ r ∈ rows, r.isActive = true → r.owner.pair ≠ pair

/-- What each thing that happens can do. -/
inductive Step (badgeDays : ℤ) (s : Consents ν) : ConsentAction ν → Consents ν → Prop
  | start (call : ConsentCall ν) :
      Step badgeDays s (.start call) { s with calls := s.calls ++ [⟨call, .begun⟩] }
  | pass (a : ConsentAction ν) (i : ℕ) (c : RunningConsent ν) (get : s.calls[i]? = some c)
      (stage : ConsentStage) (light : stage.isLight = true) :
      Step badgeDays s a (s.setStage i c stage)
  | lock (i : ℕ) (c : RunningConsent ν) (get : s.calls[i]? = some c) (row : OAuthConsent)
      (current : current (·.id) s.rows row.id = some row)
      (free : Grants RunningConsent.heldRows s.calls i { c with stage := .held row })
      (finds : c.call.finds row = true) : Step badgeDays s (.lock i) (s.setStage i c (.held row))
  | update (i now : ℕ) (c : RunningConsent ν) (get : s.calls[i]? = some c) (old : OAuthConsent)
      (held : c.stage = .held old) (row : OAuthConsent) (updates : Updates c.call old row) :
      Step badgeDays s (.update i now) (s.setStage i c (.updated row))
  | insert (i now : ℕ) (id : Uuid) (c : RunningConsent ν) (get : s.calls[i]? = some c)
      (absent : c.stage = .absent) (row : OAuthConsent) (creates : Creates c.call row)
      (none : NoneActive s.rows row.owner.pair) (fresh : ∀ r ∈ s.rows, r.id ≠ row.id)
      (freeRow : Grants RunningConsent.heldRows s.calls i { c with stage := .inserted row })
      (freePair : Grants RunningConsent.heldPairs s.calls i { c with stage := .inserted row }) :
      Step badgeDays s (.insert i id now) (s.setStage i c (.inserted row))
  | decide (i now : ℕ) (c : RunningConsent ν) (get : s.calls[i]? = some c)
      (row : Option OAuthConsent)
      (stage : (∃ r, row = some r ∧ c.stage = .held r) ∨ row = none ∧ c.stage = .absent)
      (skipped : Bool) (decides : Decides badgeDays c.call row skipped) :
      Step badgeDays s (.decide i now) (s.setStage i c (.decided row skipped))
  | commit (i : ℕ) (c : RunningConsent ν) (get : s.calls[i]? = some c) (row : OAuthConsent)
      (stage : c.stage = .updated row ∨ c.stage = .inserted row) (event : ConsentEvent)
      (commits : Commits c.call row event) :
      Step badgeDays s (.commit i) { s.setStage i c .ended with
        rows := commit (·.id) [(row.id, some row)] s.rows
        events := event :: s.events }

theorem step_cases (hstep : s.step badgeDays a = some t) : Step badgeDays s a t := by
  cases a with
  | start call =>
    cases hstep
    exact .start call
  | select i =>
    obtain ⟨c, hget, hstep⟩ := Option.bind_eq_some_iff.mp hstep
    rw [Consents.select] at hstep
    split at hstep
    case h_2 => cases hstep
    case h_1 =>
      split at hstep <;> cases hstep
      · exact .pass _ i c hget _ rfl
      · exact .pass _ i c hget _ rfl
  | lock i =>
    obtain ⟨c, hget, hstep⟩ := Option.bind_eq_some_iff.mp hstep
    rw [Consents.lock] at hstep
    split at hstep
    case h_2 => cases hstep
    case h_1 id hstage =>
      split at hstep
      case h_2 =>
        cases hstep
        exact .pass _ i c hget _ rfl
      case h_1 row hcurrent =>
        obtain ⟨hfree, hstep⟩ := Option.ite_none_right_eq_some.mp hstep
        split at hstep <;> cases hstep
        · obtain ⟨-, rfl⟩ := mem_of_current hcurrent
          exact .lock i c hget row hcurrent hfree ‹_›
        · exact .pass _ i c hget _ rfl
  | update i now =>
    obtain ⟨c, hget, hstep⟩ := Option.bind_eq_some_iff.mp hstep
    rw [Consents.update] at hstep
    split at hstep
    case h_1 owner grant old hcall hstage =>
      cases hstep
      exact .update i now c hget old hstage _ (hcall ▸ .merge owner grant old now)
    case h_2 realmId id old hcall hstage =>
      cases hstep
      exact .update i now c hget old hstage _ (hcall ▸ .revoke realmId id old now)
    case h_3 => cases hstep
  | insert i id now =>
    obtain ⟨c, hget, hstep⟩ := Option.bind_eq_some_iff.mp hstep
    rw [Consents.insert] at hstep
    split at hstep
    case h_2 => cases hstep
    case h_1 owner grant hcall hstage =>
      split at hstep
      case h_1 row hrow =>
        obtain ⟨-, hstep⟩ := Option.ite_none_left_eq_some.mp hstep
        cases hstep
        exact .pass _ i c hget _ rfl
      case h_2 hnone =>
        obtain ⟨⟨hfresh, hrow, hpair⟩, hstep⟩ := Option.ite_none_right_eq_some.mp hstep
        cases hstep
        refine .insert i now id c hget hstage _ (hcall ▸ .created id owner grant now) ?_ hfresh hrow
          hpair
        intro r hr hactive heq
        have hnot := List.find?_eq_none.mp hnone r hr
        exact hnot (by rw [hactive, Bool.true_and]; exact decide_eq_true heq)
  | decide i now =>
    obtain ⟨c, hget, hstep⟩ := Option.bind_eq_some_iff.mp hstep
    rw [Consents.decide] at hstep
    split at hstep
    case h_1 owner client scopes resources row hcall hstage =>
      cases hstep
      exact .decide i now c hget (some row) (.inl ⟨row, rfl, hstage⟩) _
        (hcall ▸ .skip owner client scopes resources (some row) now)
    case h_2 owner client scopes resources hcall hstage =>
      cases hstep
      exact .decide i now c hget none (.inr ⟨rfl, hstage⟩) _
        (hcall ▸ .skip owner client scopes resources none now)
    case h_3 => cases hstep
  | commit i =>
    obtain ⟨c, hget, hstep⟩ := Option.bind_eq_some_iff.mp hstep
    rw [Consents.commit] at hstep
    split at hstep
    case h_1 owner grant row hcall hstage =>
      cases hstep
      exact .commit i c hget row (.inl hstage) _ (hcall ▸ .granted owner grant row)
    case h_2 owner grant row hcall hstage =>
      cases hstep
      exact .commit i c hget row (.inr hstage) _ (hcall ▸ .granted owner grant row)
    case h_3 realmId id row hcall hstage =>
      cases hstep
      exact .commit i c hget row (.inl hstage) _ (hcall ▸ .revoked realmId id row)
    case h_4 =>
      cases hstep
      exact .pass _ i c hget _ rfl
    case h_5 => cases hstep
  | rollback i =>
    obtain ⟨c, hget, hstep⟩ := Option.bind_eq_some_iff.mp hstep
    cases hstep
    exact .pass _ i c hget _ rfl

/-! ### The invariant -/

/-- What a transaction has found still holds. -/
def CallOk (badgeDays : ℤ) (rows : List OAuthConsent) (c : RunningConsent ν) : Prop :=
  match c.stage with
  | .held row => current (·.id) rows row.id = some row ∧ c.call.finds row = true
  | .updated row => ∃ old, current (·.id) rows row.id = some old ∧ c.call.finds old = true ∧
      Updates c.call old row
  | .inserted row => (∀ r ∈ rows, r.id ≠ row.id) ∧ NoneActive rows row.owner.pair ∧
      Creates c.call row
  | .decided (some row) skipped => current (·.id) rows row.id = some row ∧
      c.call.finds row = true ∧ Decides badgeDays c.call (some row) skipped
  | .decided none skipped => Decides badgeDays c.call none skipped
  | _ => True

/-- What a user has granted to a client since the last revocation. -/
def grantedSince (events : List ConsentEvent) (pair : Uuid × Uuid) : List Grant :=
  (grantsSince events pair).map (·.2)

structure Sound (badgeDays : ℤ) (s : Consents ν) : Prop where
  ids : (s.rows.map (·.id)).Nodup
  active : ∀ r ∈ s.rows, ∀ r' ∈ s.rows, r.isActive = true → r'.isActive = true →
    r.owner.pair = r'.owner.pair → r = r'
  union : ∀ r ∈ s.rows, r.isActive = true → Holds r (grantedSince s.events r.owner.pair) ∧
    ∀ g ∈ grantsSince s.events r.owner.pair, g.1 = r.owner
  granted : ∀ pair, NoneActive s.rows pair → grantsSince s.events pair = []
  rowsApart : Apart RunningConsent.heldRows s.calls
  pairsApart : Apart RunningConsent.heldPairs s.calls
  calls : ∀ c ∈ s.calls, CallOk badgeDays s.rows c

theorem grantsSince_cons_of_ne (h : event.pair ≠ pair) :
    grantsSince (event :: events) pair = grantsSince events pair := by
  cases event with
  | granted owner grant => exact if_neg h
  | revoked revoked => exact if_neg h

theorem Updates.id_owner (h : Updates call old row) : row.id = old.id ∧ row.owner = old.owner := by
  cases h <;> exact ⟨rfl, rfl⟩

theorem isActive_of_finds (h : call.finds row = true) : row.isActive = true := by
  cases call with
  | upsertGrant | skip => exact (Bool.and_eq_true_iff.mp h).2
  | revoke => exact (Bool.and_eq_true_iff.mp h).2

/-- One transaction goes on, and the table stays as it is. -/
theorem Sound.setStage (hs : Sound badgeDays s)
    (hrows : Grants RunningConsent.heldRows s.calls i { c with stage := stage })
    (hpairs : Grants RunningConsent.heldPairs s.calls i { c with stage := stage })
    (hok : CallOk badgeDays s.rows { c with stage := stage }) :
    Sound badgeDays (s.setStage i c stage) :=
  { hs with
    rowsApart := hs.rowsApart.set hrows
    pairsApart := hs.pairsApart.set hpairs
    calls := fun c' hc' ↦ by
      rcases List.mem_or_eq_of_mem_set hc' with hc' | rfl
      · exact hs.calls c' hc'
      · exact hok }

theorem heldRows_of_isLight (h : stage.isLight = true) :
    RunningConsent.heldRows ⟨call, stage⟩ = [] := by
  cases stage with
  | begun | found | absent | ended => rfl
  | held | updated | inserted | decided => cases h

theorem heldPairs_of_isLight (h : stage.isLight = true) :
    RunningConsent.heldPairs ⟨call, stage⟩ = [] := by
  cases stage with
  | begun | found | absent | ended => rfl
  | held | updated | inserted | decided => cases h

theorem grants_of_eq_nil {κ : Type*} {held : RunningConsent ν → List (κ × Mode)}
    {calls : List (RunningConsent ν)} (h : held c = []) : Grants held calls i c := by
  intro b _ x hx
  rw [h] at hx
  cases hx

theorem Sound.pass (hs : Sound badgeDays s) (hlight : stage.isLight = true) :
    Sound badgeDays (s.setStage i c stage) := by
  refine hs.setStage (grants_of_eq_nil (heldRows_of_isLight hlight))
    (grants_of_eq_nil (heldPairs_of_isLight hlight)) ?_
  cases stage with
  | begun | found | absent | ended => trivial
  | held | updated | inserted | decided => cases hlight

/-! ### Commits -/

/-- What a row that is about to be committed is to the rows before. -/
structure Finished (s : Consents ν) (i : ℕ) (c : RunningConsent ν) (row : OAuthConsent)
    (event : ConsentEvent) : Prop where
  get : s.calls[i]? = some c
  own : c.heldRows = [(row.id, .exclusive)]
  same : ∀ r ∈ s.rows, r.id = row.id → r.owner = row.owner
  /-- No other row of the user and the client is active. -/
  alone : ∀ r ∈ s.rows, r.isActive = true → r.owner.pair = row.owner.pair → r.id = row.id
  /-- It takes the place of an active row, or its entry in the index is its own. -/
  entry : ¬NoneActive s.rows row.owner.pair ∨ (row.owner.pair, .exclusive) ∈ c.heldPairs
  union : (∃ grant, event = .granted row.owner grant ∧ row.isActive = true ∧
      Holds row (grant :: grantedSince s.events row.owner.pair) ∧
      ∀ g ∈ grantsSince s.events row.owner.pair, g.1 = row.owner) ∨
    event = .revoked row.owner.pair ∧ row.isActive = false

theorem finished_of_updated (hs : Sound badgeDays s) (hget : s.calls[i]? = some c)
    (hstage : c.stage = .updated row) (hcommits : Commits c.call row event) :
    Finished s i c row event := by
  have hok := hs.calls c (List.mem_of_getElem? hget)
  rw [CallOk, hstage] at hok
  obtain ⟨old, hcurrent, hfinds, hupdates⟩ := hok
  obtain ⟨hold, hid⟩ := mem_of_current hcurrent
  have hactive := isActive_of_finds hfinds
  obtain ⟨-, howner⟩ := hupdates.id_owner
  obtain ⟨hholds, howners⟩ := hs.union old hold hactive
  refine ⟨hget, by rw [RunningConsent.heldRows, hstage], fun r hr hrid ↦ ?_,
    fun r hr hractive hpair ↦ ?_, .inl fun hnone ↦ ?_, ?_⟩
  · rw [howner, Table.eq_of_key_eq hs.ids hr hold (hrid.trans hid.symm)]
  · rw [hs.active r hr old hold hractive hactive (by rw [hpair, howner]), hid]
  · exact hnone old hold hactive (by rw [howner])
  · generalize hcall : c.call = call at hupdates hcommits hfinds
    cases hupdates with
    | merge owner grant old now =>
      cases hcommits
      have hown : old.owner = owner := by simpa using (Bool.and_eq_true_iff.mp hfinds).1
      exact .inl ⟨grant, by rw [← hown]; rfl, hactive, holds_merge hholds, howners⟩
    | revoke realmId id old now =>
      cases hcommits
      exact .inr ⟨rfl, rfl⟩

theorem finished_of_inserted (hs : Sound badgeDays s) (hget : s.calls[i]? = some c)
    (hstage : c.stage = .inserted row) (hcommits : Commits c.call row event) :
    Finished s i c row event := by
  have hok := hs.calls c (List.mem_of_getElem? hget)
  rw [CallOk, hstage] at hok
  obtain ⟨hfresh, hnone, hcreates⟩ := hok
  refine ⟨hget, by rw [RunningConsent.heldRows, hstage], fun r hr hid ↦ absurd hid (hfresh r hr),
    fun r hr hactive hpair ↦ absurd hpair (hnone r hr hactive), .inr ?_, .inl ?_⟩
  · rw [RunningConsent.heldPairs, hstage]
    exact List.mem_singleton.mpr rfl
  · have hnil := hs.granted _ hnone
    rw [grantedSince, hnil]
    generalize hcall : c.call = call at hcreates hcommits
    cases hcreates with
    | created id owner grant now =>
      cases hcommits
      exact ⟨grant, rfl, rfl, holds_created, nofun⟩

section Commit

variable (hs : Sound badgeDays s) (hf : Finished s i c row event)

theorem named_write : Writes.Named (·.id) [(row.id, some row)] := by
  refine Writes.Named.nil.cons nofun fun r hr ↦ ?_
  rw [Option.mem_some_iff.mp hr]

theorem mem_commit_row :
    r ∈ commit (·.id) [(row.id, some row)] rows ↔ (r ∈ rows ∧ r.id ≠ row.id) ∨ r = row := by
  rw [mem_commit]
  simp only [Writes.keys, List.map_cons, List.map_nil, List.mem_singleton, Prod.mk.injEq,
    Option.some.injEq, exists_eq_left]

include hf

theorem Finished.event_pair : event.pair = row.owner.pair := by
  rcases hf.union with ⟨grant, rfl, -⟩ | ⟨rfl, -⟩ <;> rfl

/-- Another row that is active is of another user or client. -/
theorem Finished.apart (hr : r ∈ s.rows) (hid : r.id ≠ row.id) (hactive : r.isActive = true) :
    r.owner.pair ≠ row.owner.pair :=
  fun hpair ↦ hid (hf.alone r hr hactive hpair)

include hs

theorem Finished.rows_active : ∀ r ∈ commit (·.id) [(row.id, some row)] s.rows,
    ∀ r' ∈ commit (·.id) [(row.id, some row)] s.rows, r.isActive = true → r'.isActive = true →
      r.owner.pair = r'.owner.pair → r = r' := by
  intro r hr r' hr' hactive hactive' hpair
  rcases mem_commit_row.mp hr with ⟨hr, hid⟩ | rfl <;>
    rcases mem_commit_row.mp hr' with ⟨hr', hid'⟩ | hr'
  · exact hs.active r hr r' hr' hactive hactive' hpair
  · rw [hr'] at hpair
    exact absurd hpair (hf.apart hr hid hactive)
  · exact absurd hpair.symm (hf.apart hr' hid' hactive')
  · exact hr'.symm

/-- What is granted since the last revocation, the rows hold. -/
theorem Finished.rows_union : ∀ r ∈ commit (·.id) [(row.id, some row)] s.rows, r.isActive = true →
    Holds r (grantedSince (event :: s.events) r.owner.pair) ∧
      ∀ g ∈ grantsSince (event :: s.events) r.owner.pair, g.1 = r.owner := by
  intro r hr hactive
  rcases mem_commit_row.mp hr with ⟨hr, hid⟩ | rfl
  · have hne : event.pair ≠ r.owner.pair := by
      rw [hf.event_pair]
      exact (hf.apart hr hid hactive).symm
    rw [grantedSince, grantsSince_cons_of_ne hne]
    exact hs.union r hr hactive
  · rcases hf.union with ⟨grant, rfl, -, hholds, howners⟩ | ⟨-, hrevoked⟩
    · rw [grantedSince, grantsSince, if_pos rfl]
      exact ⟨hholds, List.forall_mem_cons.mpr ⟨rfl, howners⟩⟩
    · rw [hrevoked] at hactive
      cases hactive

theorem Finished.none_granted (hnone : NoneActive (commit (·.id) [(row.id, some row)] s.rows) pair) :
    grantsSince (event :: s.events) pair = [] := by
  by_cases hpair : event.pair = pair
  · rcases hf.union with ⟨grant, rfl, hactive, -⟩ | ⟨rfl, -⟩
    · exact absurd hpair (hnone row (mem_commit_row.mpr (.inr rfl)) hactive)
    · exact if_pos hpair
  · rw [grantsSince_cons_of_ne hpair]
    refine hs.granted pair fun r hr hactive heq ↦ ?_
    by_cases hid : r.id = row.id
    · rw [hf.event_pair, ← hf.same r hr hid] at hpair
      exact hpair heq
    · exact hnone r (mem_commit_row.mpr (.inl ⟨hr, hid⟩)) hactive heq

/-- A row that another transaction holds stays the row it is. -/
theorem Finished.current_of_held {j : ℕ} {c' : RunningConsent ν} (hij : j ≠ i)
    (hget : s.calls[j]? = some c') {id : Uuid} {m : Mode} (hheld : (id, m) ∈ c'.heldRows) :
    current (·.id) (commit (·.id) [(row.id, some row)] s.rows) id = current (·.id) s.rows id := by
  have happart := hs.rowsApart.compatible hij.symm hf.get hget
  rw [hf.own] at happart
  exact current_commit_of_held hs.ids named_write hheld happart

/-- Another transaction is not disturbed. -/
theorem Finished.callOk {j : ℕ} {c' : RunningConsent ν} (hij : j ≠ i)
    (hget : s.calls[j]? = some c') :
    CallOk badgeDays (commit (·.id) [(row.id, some row)] s.rows) c' := by
  have hok := hs.calls c' (List.mem_of_getElem? hget)
  have hcurrent : ∀ id m, (id, m) ∈ c'.heldRows → current (·.id)
      (commit (·.id) [(row.id, some row)] s.rows) id = current (·.id) s.rows id :=
    fun _ _ ↦ hf.current_of_held hs hij hget
  rw [CallOk] at hok ⊢
  split
  case h_1 row' hstage =>
    rw [hstage] at hok
    rw [hcurrent row'.id c'.call.mode (by simp [RunningConsent.heldRows, hstage])]
    exact hok
  case h_2 row' hstage =>
    rw [hstage] at hok
    rw [hcurrent row'.id .exclusive (by simp [RunningConsent.heldRows, hstage])]
    exact hok
  case h_3 row' hstage =>
    rw [hstage] at hok
    obtain ⟨hfresh, hnone, hcreates⟩ := hok
    refine ⟨fun r hr ↦ ?_, fun r hr hactive hpair ↦ ?_, hcreates⟩
    · rcases mem_commit_row.mp hr with ⟨hr, -⟩ | rfl
      · exact hfresh r hr
      · intro hid
        have happart := hs.rowsApart.compatible hij.symm hf.get hget
        refine happart.not_mem (k := r.id) (m := .exclusive) ?_ ?_
        · simp [hf.own]
        · simp [RunningConsent.heldRows, hstage, hid]
    · rcases mem_commit_row.mp hr with ⟨hr, -⟩ | rfl
      · exact hnone r hr hactive hpair
      · rcases hf.entry with hother | hentry
        · rw [hpair] at hother
          exact hother hnone
        · have happart := hs.pairsApart.compatible hij.symm hf.get hget
          refine happart.not_mem (m := .exclusive) hentry ?_
          simp [RunningConsent.heldPairs, hstage, hpair]
  case h_4 row' skipped hstage =>
    rw [hstage] at hok
    rw [hcurrent row'.id c'.call.mode (by simp [RunningConsent.heldRows, hstage])]
    exact hok
  case h_5 skipped hstage =>
    rw [hstage] at hok
    exact hok
  case h_6 => trivial

/-- A transaction commits. -/
theorem Finished.commit : Sound badgeDays { s.setStage i c .ended with
    rows := ReadCommitted.commit (·.id) [(row.id, some row)] s.rows
    events := event :: s.events } :=
  have hended : Sound badgeDays (s.setStage i c .ended) := hs.pass rfl
  { hended with
    ids := nodup_commit hs.ids named_write
    active := hf.rows_active hs
    union := hf.rows_union hs
    granted := fun _ hnone ↦ hf.none_granted hs hnone
    calls := fun c' hc' ↦ by
      obtain ⟨j, hget⟩ := List.getElem?_of_mem hc'
      rcases getElem?_set_cases hget with ⟨-, rfl⟩ | ⟨hij, hget⟩
      · trivial
      · exact hf.callOk hs hij hget }

end Commit

/-! ### Every run -/

theorem Sound.step (hs : Sound badgeDays s) (hstep : Step badgeDays s a t) : Sound badgeDays t := by
  cases hstep with
  | start call =>
    refine { hs with
      rowsApart := hs.rowsApart.append rfl
      pairsApart := hs.pairsApart.append rfl
      calls := fun c hc ↦ ?_ }
    rcases List.mem_append.mp hc with hc | hc
    · exact hs.calls c hc
    · obtain rfl := List.mem_singleton.mp hc
      trivial
  | pass _ i c get stage light => exact hs.pass light
  | lock i c get row current free finds =>
    exact hs.setStage free (grants_of_eq_nil rfl) ⟨current, finds⟩
  | update i now c get old held row updates =>
    have hok := hs.calls c (List.mem_of_getElem? get)
    rw [CallOk, held] at hok
    have hmode : c.call.mode = .exclusive := by
      generalize c.call = call at updates
      cases updates <;> rfl
    obtain ⟨hid, -⟩ := updates.id_owner
    refine hs.setStage (hs.rowsApart.grants_of_subset get fun x hx ↦ ?_) (grants_of_eq_nil rfl)
      ⟨old, by rw [hid]; exact hok.1, hok.2, updates⟩
    simpa only [RunningConsent.heldRows, held, hmode, hid] using hx
  | insert i now id c get absent row creates none fresh freeRow freePair =>
    exact hs.setStage freeRow freePair ⟨fresh, none, creates⟩
  | decide i now c get row stage skipped decides =>
    have hok := hs.calls c (List.mem_of_getElem? get)
    rw [CallOk] at hok
    rcases stage with ⟨r, rfl, hstage⟩ | ⟨rfl, hstage⟩
    · rw [hstage] at hok
      refine hs.setStage (hs.rowsApart.grants_of_subset get fun x hx ↦ ?_) (grants_of_eq_nil rfl)
        ⟨hok.1, hok.2, decides⟩
      rw [RunningConsent.heldRows, hstage]
      exact hx
    · exact hs.setStage (grants_of_eq_nil rfl) (grants_of_eq_nil rfl) decides
  | commit i c get row stage event commits =>
    rcases stage with hstage | hstage
    · exact (finished_of_updated hs get hstage commits).commit hs
    · exact (finished_of_inserted hs get hstage commits).commit hs

theorem sound_invariant : (consentSystem ν badgeDays).Invariant (Sound badgeDays) where
  initial := by
    rintro s ⟨hrows, hcalls, hevents⟩
    have hnone : ∀ r, r ∉ s.rows := by
      rw [hrows]
      exact fun _ ↦ List.not_mem_nil
    have hget : ∀ (i : ℕ) (c : RunningConsent ν), s.calls[i]? ≠ some c := by
      intro i c hget
      rw [hcalls] at hget
      cases hget
    constructor
    · rw [hrows]
      exact List.nodup_nil
    · exact fun r hr ↦ absurd hr (hnone r)
    · exact fun r hr ↦ absurd hr (hnone r)
    · intro pair _
      rw [hevents]
      rfl
    · exact fun i j c c' _ h ↦ absurd h (hget i c)
    · exact fun i j c c' _ h ↦ absurd h (hget i c)
    · rw [hcalls]
      exact List.forall_mem_nil _
  step _ _ _ hs hstep := hs.step (step_cases hstep)

/-- In every run, whatever grants, revocations and locked reads run beside one another: a user and a
client have at most one active consent; it holds exactly the union of the grants committed since the
last revocation, and for each resource exactly that of the grants that named it; where there is none,
nothing was granted since. And as long as a transaction stands by its answer that the screen is
skipped, for a client whose administrative consent does not apply, every scope it asks for was
granted since the last revocation, for every resource it asks for. -/
theorem consents_unite_grants (badgeDays : ℤ) (s : Consents ν)
    (hs : (consentSystem ν badgeDays).Reachable s) :
    ((s.rows.map (·.id)).Nodup ∧ ∀ r ∈ s.rows, ∀ r' ∈ s.rows, r.isActive = true →
        r'.isActive = true → r.owner.pair = r'.owner.pair → r = r') ∧
      (∀ r ∈ s.rows, r.isActive = true → Holds r (grantedSince s.events r.owner.pair) ∧
        ∀ g ∈ grantsSince s.events r.owner.pair, g.1 = r.owner) ∧
      (∀ pair, NoneActive s.rows pair → grantsSince s.events pair = []) ∧
      ∀ c ∈ s.calls, ∀ owner client scopes resources row,
        c.call = .skip owner client scopes resources → c.stage = .decided row true →
          administrativeConsentFor client scopes = none →
            Approved (grantedSince s.events owner.pair) scopes resources := by
  have hs := sound_invariant.reachable hs
  refine ⟨⟨hs.ids, hs.active⟩, hs.union, hs.granted, ?_⟩
  intro c hc owner client scopes resources row hcall hstage hadmin
  have hok := hs.calls c hc
  rw [CallOk, hstage, hcall] at hok
  have hcovers : ∀ now, canSkipConsent badgeDays now row client scopes resources = true →
      ∃ r, row = some r ∧ r.isActive = true ∧ consentCovers r scopes resources = true :=
    fun _ ↦ covers_of_canSkipConsent hadmin
  cases row with
  | none =>
    generalize hskipped : true = skipped at hok
    cases hok with
    | skip _ _ _ _ _ now =>
      obtain ⟨r, hr, -⟩ := hcovers now hskipped.symm
      cases hr
  | some r =>
    obtain ⟨hcurrent, hfinds, hdecides⟩ := hok
    generalize hskipped : true = skipped at hdecides
    cases hdecides with
    | skip _ _ _ _ _ now =>
      obtain ⟨r', hr', hactive, hcover⟩ := hcovers now hskipped.symm
      cases hr'
      have hown : r.owner = owner := by simpa using (Bool.and_eq_true_iff.mp hfinds).1
      obtain ⟨hholds, -⟩ := hs.union r (mem_of_current hcurrent).1 hactive
      rw [← hown]
      exact approved_of_consentCovers hholds hcover

section Sample

def sampleOwner : ConsentOwner := ⟨1, 2, 3⟩

def sampleClient : OAuthClientLike ℤ :=
  ⟨none, none, "none", ["authorization_code"], none, false, none, none⟩

/-- Two first grants race, and the second fails. Another grant is united with the row while a locked
read of it waits, and the revocation that comes after waits for the read. -/
def sampleActions : List (ConsentAction ℤ) :=
  [.start (.upsertGrant sampleOwner ⟨["write"], ["https://a"]⟩), .select 0,
    .start (.upsertGrant sampleOwner ⟨["email"], []⟩), .select 1,
    .insert 0 7 100, .commit 0, .insert 1 8 101,
    .start (.upsertGrant sampleOwner ⟨["read"], ["https://a", "https://b"]⟩), .select 2, .lock 2,
    .update 2 102, .start (.skip sampleOwner sampleClient ["read", "write"] ["https://a"]),
    .select 3, .commit 2, .lock 3, .decide 3 103, .start (.revoke 1 7), .select 4]

/-- A transaction stands by its answer that the screen is skipped. -/
def standsBySkip (c : RunningConsent ℤ) : Bool :=
  match c.stage with
  | .decided _ skipped => skipped
  | _ => false

theorem consents_unite_grants_sample : ∃ s, (consentSystem ℤ 7).Reachable s ∧
    s.rows.map (fun r ↦ (r.scopes, r.resourceScopes)) =
      [(["read", "write"], [("https://a", ["read", "write"]), ("https://b", ["read"])])] ∧
    (∃ c ∈ s.calls, standsBySkip c = true) ∧
    ∀ r ∈ s.rows, r.isActive = true → Holds r (grantedSince s.events r.owner.pair) ∧
      ∀ g ∈ grantsSince s.events r.owner.pair, g.1 = r.owner := by
  have hrun : (exec (Consents.step 7) ⟨[], [], []⟩ sampleActions).any (fun s ↦
      Decidable.decide (s.rows.map (fun r ↦ (r.scopes, r.resourceScopes)) =
        [(["read", "write"], [("https://a", ["read", "write"]), ("https://b", ["read"])])] ∧
        ∃ c ∈ s.calls, standsBySkip c = true)) = true := by decide
  cases hs : exec (Consents.step 7) ⟨[], [], []⟩ sampleActions with
  | none =>
    rw [hs] at hrun
    cases hrun
  | some s =>
    rw [hs] at hrun
    obtain ⟨hrows, hskip⟩ := of_decide_eq_true hrun
    have hreachable : (consentSystem ℤ 7).Reachable s :=
      ⟨_, sampleActions, ⟨rfl, rfl, rfl⟩, .of_exec hs⟩
    exact ⟨s, hreachable, hrows, hskip, (consents_unite_grants 7 s hreachable).2.1⟩

end Sample

end QAuth.Consents
