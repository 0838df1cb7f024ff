import QAuth.Engine.Grows

/-!
# Rule 8's loop ends

The source bounds no turn of the loop. Each turn that goes on takes the round's one answer or
verifies `totp_setup`, which no transaction verifies twice, so that two turns go on at most.
-/

namespace QAuth.Engine

open Effect (Within Makes Environment Memory)

/-! ### The turns -/

section Turns

variable (s : RoundSetting) (policy : MfaPolicy) (subject : String)

/-- One turn of rule 8's loop: it returns the account, or goes on with the account read again. -/
def loopTurn (current : SignInAccount) : EngineM (SignInAccount ⊕ SignInAccount) := do
  match ← neededNow s policy current subject with
  | .nothing => return .inl current
  | .setUp =>
    if !s.deps.totp then redirect .stepNotAvailable
    enrolTotp s current subject
    let account ← readAccount subject
    return .inr account
  | .factors steps addressFirst =>
    proveNeeded s current subject steps addressFirst
    let account ← readAccount subject
    return .inr account

/-- How the loop ends that no number of turns bounds. -/
inductive LoopEnds (env : Environment ports) : SignInAccount → Memory ports RoundState →
    Except Exit SignInAccount → Memory ports RoundState → Prop
  | returns {current account : SignInAccount} {m m' : Memory ports RoundState}
      (h : loopTurn s policy subject current env m = (.ok (.inl account), m')) :
      LoopEnds env current m (.ok account) m'
  | stops {current : SignInAccount} {e : Exit} {m m' : Memory ports RoundState}
      (h : loopTurn s policy subject current env m = (.error e, m')) :
      LoopEnds env current m (.error e) m'
  | goesOn {current next : SignInAccount} {m m' m'' : Memory ports RoundState}
      {r : Except Exit SignInAccount}
      (h : loopTurn s policy subject current env m = (.ok (.inr next), m'))
      (hrest : LoopEnds env next m' r m'') : LoopEnds env current m r m''

end Turns

/-- The round's answer is taken. -/
def Consumes (σ σ' : RoundState) : Prop := σ.pending ≠ none ∧ σ'.pending = none

/-- `step` is verified, and was not. -/
def Verifies (step : StepName) (σ σ' : RoundState) : Prop :=
  σ.transaction.hasVerified step = false ∧ σ'.transaction.hasVerified step = true

variable {α β : Type} {s : RoundSetting} {policy : MfaPolicy} {subject : String}

/-! ### Ends of a round

A procedure that only stops brings about anything. -/

def Stops (x : EngineM α) : Prop := ∀ S, Makes S x

theorem Stops.after {x : EngineM α} {f : α → EngineM β} (hf : ∀ a, Stops (f a)) :
    Stops (x >>= f) := by
  intro S
  exact Makes.bind (S := fun _ _ ↦ True) (T := fun _ _ ↦ False) (fun _ _ _ _ h ↦ h.elim)
    (fun _ _ _ _ ↦ trivial) fun a ↦ hf a _

theorem Stops.when {x : EngineM α} {y : EngineM β} {c : Prop} [Decidable c] (hy : Stops y) :
    Stops (if c then x >>= fun _ ↦ y else y) :=
  fun S ↦ (Stops.after (fun _ ↦ hy) S).ite (hy S)

theorem fault_stops : Stops (fault : EngineM α) := fun _ ↦ Effect.makes_exit _

theorem respond_stops (result : RoundResult) : Stops (respond result : EngineM α) :=
  fun _ ↦ Effect.makes_exit _

theorem ended_stops (step : StepName) (reason : SignInAuditReason) :
    Stops (ended step reason : EngineM α) :=
  Stops.after fun _ ↦ respond_stops _

theorem invalidAnswer_stops (step : StepName) : Stops (invalidAnswer step : EngineM α) :=
  Stops.after fun _ ↦ Stops.after fun _ ↦ respond_stops _

theorem redirect_stops (reason : RedirectReason) : Stops (redirect reason : EngineM α) :=
  respond_stops _

theorem offerStep_stops (offer : StepOffer) (error : Option StepErrorCode)
    (shown : Option StepPersonal) : Stops (offerStep offer error shown : EngineM α) :=
  Stops.after fun _ ↦ respond_stops _

theorem startTotp_stops (subject label : String) :
    Stops (startTotp s subject label : EngineM α) :=
  Stops.after fun _ ↦ Stops.when (Stops.after fun _ ↦ Stops.after fun _ ↦ Stops.after fun _ ↦
    Stops.when (offerStep_stops _ _ _))

/-! ### The answer is taken -/

theorem Consumes.grows {σ τ υ : RoundState} (h : Consumes σ τ) (k : Grows τ υ) : Consumes σ υ := by
  refine ⟨h.1, ?_⟩
  rcases k.pending with hk | hk
  · rw [hk, h.2]
  · exact hk

theorem Grows.consumes {σ τ υ : RoundState} (h : Grows σ τ) (k : Consumes τ υ) : Consumes σ υ := by
  refine ⟨fun hnone ↦ k.1 ?_, k.2⟩
  rcases h.pending with hh | hh
  · rw [hh, hnone]
  · exact hh

section Consumes

variable {x : EngineM α} {f : α → EngineM β}

theorem bind_consumes (hx : Makes Consumes x) (hf : ∀ a, Within Grows (f a)) :
    Makes Consumes (x >>= f) :=
  hx.bind (T := Grows) (fun _ _ _ ↦ Consumes.grows) fun a ↦ (hf a).makes

theorem after_consumes (hx : Within Grows x) (hf : ∀ a, Makes Consumes (f a)) :
    Makes Consumes (x >>= f) :=
  hx.makes.bind (T := Consumes) (fun _ _ _ ↦ Grows.consumes) hf

theorem when_consumes {y : EngineM β} {c : Prop} [Decidable c] (hx : Within Grows x)
    (hy : Makes Consumes y) : Makes Consumes (if c then x >>= fun _ ↦ y else y) :=
  (after_consumes hx fun _ ↦ hy).ite hy

end Consumes

theorem readPending_some (offer : StepOffer) :
    Makes (fun σ σ' ↦ σ.pending ≠ none ∧ σ' = σ) (readPending s offer) := by
  intro env m a h
  rw [readPending, Effect.read_bind] at h ⊢
  rcases hpending : m.state.pending with _ | pending
  · rw [hpending] at h
    cases h
  · rw [hpending] at h
    refine ⟨nofun, ?_⟩
    dsimp only at h ⊢
    rcases s.syntaxes.readAnswer offer pending.name pending.answer.fields
      pending.answer.encoding with (_ | _) | read <;> rfl

theorem takePending_consumes (offer : StepOffer) (step : StepName) :
    Makes Consumes (takePending s offer step) := by
  refine (readPending_some offer).bind (T := fun _ σ' ↦ σ'.pending = none) ?_ fun read ↦ ?_
  · rintro σ τ υ ⟨hpending, -⟩ hnone
    exact ⟨hpending, hnone⟩
  · cases read with
    | none => exact invalidAnswer_stops step _
    | some read =>
      rintro env m _ -
      rfl

theorem redeemPending_consumes (offer : StepOffer) (subject : String) :
    Makes Consumes (redeemPending s offer subject) := by
  obtain ⟨f, hf, h⟩ := redeemPending_eq (s := s) offer subject
  rw [h]
  exact when_consumes fault_grows (bind_consumes (takePending_consumes _ _) hf)

theorem verifyPending_consumes (offer : StepOffer) : Makes Consumes (verifyPending s offer) := by
  obtain ⟨f, hf, h⟩ := verifyPending_eq (s := s) offer
  rw [h]
  refine after_consumes pendingName_grows fun name ↦ ?_
  cases name with
  | none => exact fault_stops _
  | some name => exact bind_consumes (takePending_consumes _ _) hf

theorem verifyAfterFirstFactor_consumes (offer : StepOffer) (subject : String) :
    Makes Consumes (verifyAfterFirstFactor s offer subject) :=
  after_consumes pendingName_grows fun _ ↦
    (redeemPending_consumes _ _).ite (verifyPending_consumes _)

theorem proveNeeded_consumes (current : SignInAccount) (subject : String) (steps : List Offerable)
    (addressFirst : Bool) : Makes Consumes (proveNeeded s current subject steps addressFirst) := by
  refine after_consumes transaction_grows fun T ↦ when_consumes (verifyAddress_grows _ _)
    (when_consumes (redirect_grows _) ?_)
  refine after_consumes (offerOf_grows _ _) fun offer ↦ after_consumes (answers_grows _)
    fun answered ↦ ?_
  exact when_consumes (offerStep_grows _ _ _) (verifyAfterFirstFactor_consumes _ _)

/-! ### A step is verified -/

theorem Grows.hasVerified {σ τ : RoundState} (h : Grows σ τ) {step : StepName}
    (hverified : σ.transaction.hasVerified step = true) :
    τ.transaction.hasVerified step = true := by
  obtain ⟨rest, hrest⟩ := h.verified
  rw [SignInTransaction.hasVerified, ← hrest, List.any_append, ← SignInTransaction.hasVerified,
    hverified, Bool.true_or]

/-- `step` is verified at the end. -/
def Leaves (step : StepName) (_ σ' : RoundState) : Prop := σ'.transaction.hasVerified step = true

section Leaves

variable {x : EngineM α} {f : α → EngineM β} {step : StepName}

theorem bind_leaves (hx : Makes (Leaves step) x) (hf : ∀ a, Within Grows (f a)) :
    Makes (Leaves step) (x >>= f) :=
  hx.bind (T := Grows) (fun _ _ _ h k ↦ k.hasVerified h) fun a ↦ (hf a).makes

theorem after_leaves (hx : Within Grows x) (hf : ∀ a, Makes (Leaves step) (f a)) :
    Makes (Leaves step) (x >>= f) :=
  hx.makes.bind (T := Leaves step) (fun _ _ _ _ k ↦ k) hf

theorem when_leaves {y : EngineM β} {c : Prop} [Decidable c] (hx : Within Grows x)
    (hy : Makes (Leaves step) y) : Makes (Leaves step) (if c then x >>= fun _ ↦ y else y) :=
  (after_leaves hx fun _ ↦ hy).ite hy

end Leaves

theorem bindTotp_leaves (subject sealedSecret : String) (step : ℤ) :
    Makes (Leaves .totpSetup) (bindTotp subject sealedSecret step) := by
  refine after_leaves (fromStore_grows (ask_grows _)) fun binding ↦ ?_
  cases binding with
  | bound =>
    refine after_leaves (ask_grows _) fun now ↦ bind_leaves ?_ fun _ ↦ audit_grows _ _ _
    rintro env m _ -
    show SignInTransaction.hasVerified (m.state.transaction.boundTotp now) .totpSetup = true
    rw [SignInTransaction.hasVerified, SignInTransaction.boundTotp, List.any_append]
    exact Bool.or_true _
  | accountUnclaimed => exact Stops.after (fun _ ↦ ended_stops _ _) _
  | refused reason => exact Stops.after (fun _ ↦ ended_stops _ _) _

theorem enrolTotp_leaves (current : SignInAccount) (subject : String) :
    Makes (Leaves .totpSetup) (enrolTotp s current subject) := by
  refine after_leaves transaction_grows fun T ↦ ?_
  split
  · exact redirect_stops _ _
  · refine when_leaves (redirect_grows _) (after_leaves requireFreshFactor_grows fun _ ↦ ?_)
    dsimp only
    suffices henrol : Makes (Leaves .totpSetup) _ from Makes.ite
      (when_leaves (redirect_grows _) (after_leaves (verifyAddress_grows _ _) fun _ ↦
        after_leaves requireFreshFactor_grows fun _ ↦ henrol)) henrol
    refine after_leaves transaction_grows fun T ↦ ?_
    split
    · exact startTotp_stops _ _ _
    · have hbind : ∀ sealedSecret step, Makes (Leaves .totpSetup) (do
          if !boundBeyondPassword current then proveMailbox s subject
          requireFreshFactor
          bindTotp subject sealedSecret step) := fun _ _ ↦ when_leaves (proveMailbox_grows _)
        (after_leaves requireFreshFactor_grows fun _ ↦ bindTotp_leaves _ _ _)
      split
      · exact after_leaves (Effect.within_pure _) fun step ↦ hbind _ step
      · exact after_leaves (checkFirstCode_grows _ _ _) fun step ↦ hbind _ step

/-- A transaction that set a TOTP up sets up no other. -/
theorem enrolTotp_verifies (current : SignInAccount) (subject : String) :
    Makes (Verifies .totpSetup) (enrolTotp s current subject) := by
  intro env m a h
  refine ⟨Bool.eq_false_iff.mpr fun hverified ↦ ?_, enrolTotp_leaves current subject env m a h⟩
  have hstops : enrolTotp s current subject env m =
      (redirect .stepNotAvailable : EngineM Unit) env m := by
    rw [enrolTotp]
    simp only [transaction, bind, Effect.Proc.bind, Effect.read, pure, Effect.Proc.pure]
    rcases m.state.transaction.totpLabel current with _ | label
    · rfl
    · dsimp only
      rw [SignInTransaction.enrolledTotp, hverified]
      rfl
  rw [hstops] at h
  cases h

/-! ### What a turn that goes on does -/

theorem loopTurn_grows (current : SignInAccount) :
    Within Grows (loopTurn s policy subject current) := by
  refine (neededNow_grows _ _ _).bind fun needed ↦ ?_
  split
  · exact Effect.within_pure _
  · exact (redirect_grows _).when ((enrolTotp_grows _ _).bind fun _ ↦
      (readAccount_grows _).bind fun _ ↦ Effect.within_pure _)
  · exact (proveNeeded_grows _ _ _ _).bind fun _ ↦ (readAccount_grows _).bind fun _ ↦
      Effect.within_pure _

/-- The answer is taken, or `totp_setup` is verified. -/
def Advances (σ σ' : RoundState) : Prop := Consumes σ σ' ∨ Verifies .totpSetup σ σ'

theorem Advances.grows {σ τ υ : RoundState} (h : Advances σ τ) (k : Grows τ υ) : Advances σ υ :=
  h.imp (·.grows k) fun h ↦ ⟨h.1, k.hasVerified h.2⟩

theorem Grows.advances {σ τ υ : RoundState} (h : Grows σ τ) (k : Advances τ υ) : Advances σ υ := by
  refine k.imp h.consumes fun k ↦ ⟨Bool.eq_false_iff.2 fun hverified ↦ ?_, k.2⟩
  exact Bool.eq_false_iff.1 k.1 (h.hasVerified hverified)

/-- What a turn did, where it goes on. -/
def Progress (turn : Except Exit (SignInAccount ⊕ SignInAccount)) (σ σ' : RoundState) : Prop :=
  match turn with
  | .ok (.inr _) => Advances σ σ'
  | _ => True

theorem progress_of_makes {x : EngineM (SignInAccount ⊕ SignInAccount)} (hx : Makes Advances x)
    {σ : RoundState} {env : Environment ports} {m : Memory ports RoundState}
    (hbefore : Grows σ m.state) : Progress (x env m).1 σ (x env m).2.state := by
  have hmakes := hx env m
  rcases hres : (x env m).1 with e | account | account
  · trivial
  · trivial
  · exact hbefore.advances (hmakes (.inr account) hres)

/-- A turn that goes on takes the answer, or verifies `totp_setup`. -/
theorem loopTurn_progress (current : SignInAccount) (env : Environment ports)
    (m : Memory ports RoundState) :
    Progress (loopTurn s policy subject current env m).1 m.state
      (loopTurn s policy subject current env m).2.state := by
  have hneeded := neededNow_grows (s := s) policy current subject env m
  rcases hres : neededNow s policy current subject env m with ⟨e | needed, m₁⟩
  · rw [loopTurn, Effect.bind_of_error hres]
    trivial
  · rw [hres] at hneeded
    rw [loopTurn, Effect.bind_of_ok hres]
    have hread : ∀ _ : Unit, Within Grows (do
        let account ← readAccount subject
        return Sum.inr (α := SignInAccount) account) :=
      fun _ ↦ (readAccount_grows _).bind fun _ ↦ Effect.within_pure _
    cases needed with
    | nothing => trivial
    | setUp =>
      have hmakes : Makes Advances (enrolTotp s current subject) :=
        fun env m a h ↦ .inr (enrolTotp_verifies current subject env m a h)
      have henrol := hmakes.bind (S := Advances) (T := Grows) (fun _ _ _ ↦ Advances.grows)
        fun _ ↦ (hread ()).makes
      refine progress_of_makes (Makes.ite ?_ henrol) hneeded
      exact (redirect_grows _).makes.bind (T := Advances) (fun _ _ _ ↦ Grows.advances)
        fun _ ↦ henrol
    | factors steps addressFirst =>
      have hmakes : Makes Advances (proveNeeded s current subject steps addressFirst) :=
        fun env m a h ↦ .inl (proveNeeded_consumes current subject steps addressFirst env m a h)
      exact progress_of_makes (hmakes.bind (T := Grows) (fun _ _ _ ↦ Advances.grows) fun _ ↦
        (hread ()).makes) hneeded

/-- The turns that may still go on: one takes the answer, one verifies `totp_setup`. -/
def turnsLeft (σ : RoundState) : ℕ :=
  (if σ.pending.isSome then 1 else 0) + if σ.transaction.hasVerified .totpSetup then 0 else 1

theorem turnsLeft_le (σ : RoundState) : turnsLeft σ ≤ 2 := by
  rw [turnsLeft]
  split <;> split <;> omega

theorem turnsLeft_lt {σ σ' : RoundState} (hgrows : Grows σ σ') (h : Advances σ σ') :
    turnsLeft σ' < turnsLeft σ := by
  have hpending : (if σ'.pending.isSome then 1 else 0) ≤ if σ.pending.isSome then 1 else 0 := by
    rcases hgrows.pending with h | h <;> rw [h]
    exact Nat.zero_le _
  have hverified : (if σ'.transaction.hasVerified .totpSetup then 0 else 1) ≤
      if σ.transaction.hasVerified .totpSetup then 0 else 1 := by
    by_cases h : σ.transaction.hasVerified .totpSetup = true
    · rw [h, hgrows.hasVerified h]
    · rw [if_neg h]
      split <;> omega
  rw [turnsLeft, turnsLeft]
  rcases h with ⟨hsome, hnone⟩ | ⟨hbefore, hafter⟩
  · rw [hnone, if_pos (Option.isSome_iff_ne_none.2 hsome)]
    exact Nat.add_lt_add_of_lt_of_le Nat.one_pos hverified
  · rw [hbefore, hafter]
    exact Nat.add_lt_add_of_le_of_lt hpending Nat.one_pos

/-! ### The loop ends -/

theorem factorLoop_succ (fuel : ℕ) (current : SignInAccount) :
    factorLoop s policy subject (fuel + 1) current =
      loopTurn s policy subject current >>= fun turn ↦
        match turn with
        | .inl account => pure account
        | .inr next => factorLoop s policy subject fuel next := by
  rw [factorLoop, loopTurn, Effect.bind_assoc]
  congr 1
  funext needed
  cases needed with
  | nothing => rfl
  | setUp =>
    dsimp only
    split
    · rfl
    · rw [Effect.bind_assoc]
      congr 1
      funext _
      rw [Effect.bind_assoc]
      rfl
  | factors steps addressFirst =>
    dsimp only
    rw [Effect.bind_assoc]
    congr 1
    funext _
    rw [Effect.bind_assoc]
    rfl

/-- With more turns than may go on, the loop ends as the one does that nothing bounds. -/
theorem exists_loopEnds (env : Environment ports) :
    ∀ (fuel : ℕ) (current : SignInAccount) (m : Memory ports RoundState),
      turnsLeft m.state < fuel →
        ∃ r m', LoopEnds s policy subject env current m r m' ∧
          factorLoop s policy subject fuel current env m = (r, m') := by
  intro fuel
  induction fuel with
  | zero =>
    intro current m h
    omega
  | succ fuel ih =>
    intro current m h
    rw [factorLoop_succ]
    have hgrows := @loopTurn_grows s policy subject current env m
    have hprogress := @loopTurn_progress s policy subject current env m
    rcases hturn : loopTurn s policy subject current env m with ⟨e | account | next, m₁⟩
    · exact ⟨.error e, m₁, .stops hturn, Effect.bind_of_error hturn⟩
    · exact ⟨.ok account, m₁, .returns hturn, Effect.bind_of_ok hturn⟩
    · rw [hturn] at hgrows hprogress
      have hlt : turnsLeft m₁.state < turnsLeft m.state := turnsLeft_lt hgrows hprogress
      obtain ⟨r, m₂, hends, hloop⟩ := ih next m₁ (by omega)
      exact ⟨r, m₂, .goesOn hturn hends, (Effect.bind_of_ok hturn).trans hloop⟩

/-- Each turn of the loop that goes on takes the round's one answer or verifies a step that was not
verified before, so that the loop ends that nothing bounds. -/
theorem factorLoop_terminates (s : RoundSetting) (policy : MfaPolicy) (subject : String)
    (current : SignInAccount) (env : Environment ports) (m : Memory ports RoundState) :
    (∀ turn, Progress (loopTurn s policy subject turn env m).1 m.state
      (loopTurn s policy subject turn env m).2.state) ∧
    ∃ r m', LoopEnds s policy subject env current m r m' ∧
      factorLoop s policy subject LOOP_TURNS current env m = (r, m') := by
  refine ⟨fun turn ↦ loopTurn_progress turn env m, exists_loopEnds env _ _ _ ?_⟩
  have := turnsLeft_le m.state
  rw [LOOP_TURNS]
  omega

end QAuth.Engine
