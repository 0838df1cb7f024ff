import QAuth.Engine.Rounds

/-!
# What a round keeps after its first factor

The procedures that rule 8 runs take the round's answer at most once and never take back a verified
step, however they end.
-/

namespace QAuth.Engine

open Effect (Within)

/-- The answer stays or is taken, and the verified steps are a start of those after. -/
structure Grows (σ σ' : RoundState) : Prop where
  pending : σ'.pending = σ.pending ∨ σ'.pending = none
  verified : σ.transaction.verified <+: σ'.transaction.verified

instance : Std.Refl Grows := ⟨fun _ ↦ ⟨.inl rfl, List.prefix_rfl⟩⟩

instance : IsTrans RoundState Grows where
  trans _ _ _ h k := by
    refine ⟨?_, h.verified.trans k.verified⟩
    rcases k.pending with hk | hk
    · rw [hk]
      exact h.pending
    · exact .inr hk

variable {α : Type} {x : EngineM α} {s : RoundSetting}

/-! ### Calls -/

theorem ask_grows (c : Call) : Within Grows (ask c) :=
  fun _ m ↦ Std.Refl.refl m.state

theorem respond_grows (result : RoundResult) : Within Grows (respond result : EngineM α) :=
  Effect.within_exit _

theorem unavailable_grows : Within Grows (unavailable : EngineM α) := Effect.within_exit _

theorem fault_grows : Within Grows (fault : EngineM α) := Effect.within_exit _

theorem fromStore_grows {x : EngineM (Option α)} (hx : Within Grows x) :
    Within Grows (fromStore x) := by
  refine hx.bind fun a ↦ ?_
  cases a with
  | none => exact unavailable_grows
  | some a => exact Effect.within_pure a

theorem transaction_grows : Within Grows transaction :=
  Effect.within_read.bind fun _ ↦ Effect.within_pure _

/-- A write that leaves the verified steps, or adds to them. -/
theorem writeTransaction_grows {f : SignInTransaction → SignInTransaction}
    (h : ∀ T : SignInTransaction, T.verified <+: (f T).verified) :
    Within Grows (writeTransaction f) :=
  Effect.within_update fun _ ↦ ⟨.inl rfl, h _⟩

theorem pendingName_grows : Within Grows pendingName :=
  Effect.within_read.bind fun _ ↦ Effect.within_pure _

theorem dropPending_grows : Within Grows dropPending :=
  Effect.within_update fun _ ↦ ⟨.inr rfl, List.prefix_rfl⟩

theorem digestOf_grows (identifier : String) : Within Grows (digestOf identifier) :=
  (fromStore_grows (ask_grows _)).bind fun _ ↦ (Effect.within_pure _).ite unavailable_grows

theorem identifierHmac_grows : Within Grows identifierHmac := by
  refine Effect.within_read.bind fun state ↦ ?_
  split
  · exact fault_grows
  · exact Effect.within_pure _
  · refine (digestOf_grows _).bind fun hmac ↦ Within.bind ?_ fun _ ↦ Effect.within_pure _
    exact Effect.within_update fun _ ↦ ⟨.inl rfl, List.prefix_rfl⟩

theorem writeRecord_grows (record : SignInAuditRecord) : Within Grows (writeRecord record) :=
  (ask_grows _).bind fun _ ↦ (Effect.within_pure _).ite fault_grows

theorem audit_grows (outcome : AuditOutcome) (step : StepName) (reason : Option SignInAuditReason) :
    Within Grows (audit outcome step reason) := by
  refine transaction_grows.bind fun T ↦ ?_
  split
  · exact writeRecord_grows _
  · exact identifierHmac_grows.bind fun _ ↦ writeRecord_grows _
  · exact writeRecord_grows _

theorem recordBreach_grows (step : StepName) (verdict : BreachCheckVerdict) :
    Within Grows (recordBreach step verdict) := by
  cases verdict with
  | failed failure =>
    refine transaction_grows.bind fun T ↦ ?_
    split
    · exact fault_grows
    · exact writeRecord_grows _
  | off => exact Effect.within_pure _
  | notListed => exact Effect.within_pure _
  | listed => exact Effect.within_pure _

/-! ### Handlers -/

theorem verifyTotpStep_grows (otp : String) : Within Grows (verifyTotpStep otp) := by
  refine transaction_grows.bind fun T ↦ ?_
  split
  · exact fault_grows
  · refine (fromStore_grows (ask_grows _)).bind fun verdict ↦ ?_
    split
    · exact Effect.within_pure _
    · refine (fromStore_grows (ask_grows _)).bind fun valid ↦ Within.ite ?_ ?_
      · refine (ask_grows _).bind fun _ ↦ (fromStore_grows (ask_grows _)).bind fun account ↦ ?_
        split
        · exact Effect.within_pure _
        · exact (Effect.within_pure _).ite (Effect.within_pure _)
      · refine (ask_grows _).bind fun ceilingReached ↦ ?_
        exact (ask_grows _).when ((ask_grows _).when (Effect.within_pure _))

theorem verifyPasskeyStep_grows (ceremonyKey : Option String) (response : String) :
    Within Grows (verifyPasskeyStep ceremonyKey response) := by
  rw [verifyPasskeyStep.eq_def]
  split
  · exact Effect.within_pure _
  · refine (fromStore_grows (ask_grows _)).bind fun assertion ↦ ?_
    split
    · exact Effect.within_pure _
    · refine unavailable_grows.ite ((Effect.within_pure _).ite ?_)
      refine (fromStore_grows (ask_grows _)).bind fun account ↦ ?_
      split
      · exact Effect.within_pure _
      · exact (Effect.within_pure _).ite (Effect.within_pure _)

theorem verifyPasswordStep_grows (presented : String) :
    Within Grows (verifyPasswordStep s presented) := by
  refine transaction_grows.bind fun T ↦ ?_
  split
  · exact fault_grows
  · refine identifierHmac_grows.bind fun hmac ↦
      (fromStore_grows (ask_grows _)).bind fun verdict ↦ ?_
    split
    · exact Effect.within_pure _
    · refine (fromStore_grows (ask_grows _)).bind fun candidate ↦ ?_
      cases candidate with
      | none =>
        exact (fromStore_grows (ask_grows _)).bind fun _ ↦ (Effect.within_pure _).bind fun _ ↦
          (ask_grows _).bind fun _ ↦ Effect.within_pure _
      | some account =>
        dsimp only
        split
        on_goal 1 => refine (fromStore_grows (ask_grows _)).bind fun _ ↦ ?_
        all_goals
          refine Within.bind ?_ fun valid ↦ Within.ite ?_ (Within.ite ?_ (Within.ite ?_ ?_))
          · first | exact Effect.within_pure _ | exact fromStore_grows (ask_grows _)
          · exact (ask_grows _).bind fun _ ↦ (ask_grows _).when (Effect.within_pure _)
          · exact (ask_grows _).bind fun _ ↦ (ask_grows _).when (Effect.within_pure _)
          · exact (ask_grows _).bind fun _ ↦ (ask_grows _).when (Effect.within_pure _)
          · refine (ask_grows _).bind fun _ ↦
              (ask_grows _).when ((ask_grows _).bind fun breach ↦ ?_)
            exact Effect.within_pure _

theorem verifyHandler_grows (ceremonyKey : Option String) (answer : StepAnswer) :
    Within Grows (verifyHandler s ceremonyKey answer) := by
  rw [verifyHandler.eq_def]
  split
  · exact verifyPasswordStep_grows _
  · exact verifyPasskeyStep_grows _ _
  · exact verifyTotpStep_grows _
  · exact fault_grows

/-! ### Offers and answers -/

theorem ended_grows (step : StepName) (reason : SignInAuditReason) :
    Within Grows (ended step reason : EngineM α) :=
  (audit_grows _ _ _).bind fun _ ↦ respond_grows _

theorem throttled_grows (seconds : ℤ) : Within Grows (throttled seconds : EngineM α) :=
  transaction_grows.bind fun _ ↦ respond_grows _

theorem invalidAnswer_grows (step : StepName) : Within Grows (invalidAnswer step : EngineM α) :=
  (audit_grows _ _ _).bind fun _ ↦ transaction_grows.bind fun _ ↦ respond_grows _

theorem redirect_grows (reason : RedirectReason) : Within Grows (redirect reason : EngineM α) :=
  respond_grows _

theorem spendChallenge_grows : Within Grows spendChallenge :=
  writeTransaction_grows fun _ ↦ List.prefix_rfl

theorem settleRound_grows (reserved : Bool) (outcome : SettleOutcome) (userId : Option String) :
    Within Grows (settleRound reserved outcome userId) :=
  (ask_grows _).ite (Effect.within_pure _)

theorem reserveCredentialRound_grows (step : StepName) :
    Within Grows (reserveCredentialRound s step) := by
  rw [reserveCredentialRound]
  split
  · exact Effect.within_pure _
  · refine transaction_grows.bind fun T ↦ ?_
    dsimp only
    refine Within.ite (Within.bind ?_ ?reserve) ((Effect.within_pure _).bind ?reserve)
    · exact identifierHmac_grows.bind fun _ ↦ Effect.within_pure _
    · refine fun hmac ↦ (fromStore_grows (ask_grows _)).bind fun verdict ↦ ?_
      split
      · exact (audit_grows _ _ _).bind fun _ ↦ throttled_grows _
      · exact Effect.within_pure _

theorem startCeremony_grows (offerable : Offerable) (key : String) :
    Within Grows (startCeremony s offerable key) := by
  rw [startCeremony.eq_def]
  split
  · exact (fromStore_grows (ask_grows _)).bind fun _ ↦ (Effect.within_pure _).ite unavailable_grows
  · exact (fromStore_grows (ask_grows _)).bind fun _ ↦ (Effect.within_pure _).ite unavailable_grows

theorem newCeremony_grows (offerable : Offerable) : Within Grows (newCeremony s offerable) := by
  refine (ask_grows _).bind fun key ↦ (startCeremony_grows _ _).bind fun started ↦ ?_
  exact (ask_grows _).bind fun _ ↦
    Within.bind (writeTransaction_grows fun _ ↦ List.prefix_rfl) fun _ ↦ Effect.within_pure _

theorem ceremonyParams_grows (offerable : Offerable) :
    Within Grows (ceremonyParams s offerable) := by
  refine Effect.within_read.bind fun state ↦ ?_
  split
  · exact newCeremony_grows _
  · refine (Effect.within_pure _).ite ((ask_grows _).bind fun now ↦ ?_)
    exact (Effect.within_pure _).ite (newCeremony_grows _)

theorem offerParams_grows (offerable : Offerable) : Within Grows (offerParams s offerable) := by
  rw [offerParams.eq_def]
  split
  · exact ceremonyParams_grows _
  all_goals first | exact Effect.within_pure _ | exact ceremonyParams_grows _

theorem offerEach_grows (steps : List Offerable) : Within Grows (offerEach s steps) := by
  induction steps with
  | nil => exact Effect.within_pure _
  | cons offerable rest ih =>
    exact (offerParams_grows _).bind fun _ ↦ ih.bind fun _ ↦ Effect.within_pure _

theorem offerOf_grows (steps : List Offerable) (preferred : Bool) :
    Within Grows (offerOf s steps preferred) := by
  refine (offerEach_grows _).bind fun offered ↦ ?_
  split
  · exact fault_grows
  · exact Effect.within_pure _

theorem offerStep_grows (offer : StepOffer) (error : Option StepErrorCode)
    (shown : Option StepPersonal) : Within Grows (offerStep offer error shown : EngineM α) :=
  transaction_grows.bind fun _ ↦ respond_grows _

theorem answers_grows (offer : StepOffer) : Within Grows (answers offer) :=
  Effect.within_read.bind fun _ ↦ Effect.within_pure _

theorem readPending_grows (offer : StepOffer) : Within Grows (readPending s offer) := by
  refine Effect.within_read.bind fun state ↦ ?_
  split
  · exact fault_grows
  · split
    · exact Effect.within_pure _
    · exact Effect.within_pure _
    · exact fault_grows

theorem takeFrom_grows (offer : StepOffer) : Within Grows (takeFrom offer) :=
  Effect.within_update fun _ ↦ ⟨.inr rfl, List.prefix_rfl⟩

theorem takePending_grows (offer : StepOffer) (step : StepName) :
    Within Grows (takePending s offer step) := by
  refine (readPending_grows _).bind fun read ↦ ?_
  split
  · exact invalidAnswer_grows _
  · exact (takeFrom_grows _).bind fun _ ↦ Effect.within_pure _

theorem refusedOffer_grows (offer : StepOffer) (step : StepName) :
    Within Grows (refusedOffer offer step) := by
  rw [refusedOffer]
  split
  · exact fault_grows
  · exact Effect.within_pure _

theorem renewCeremony_grows (offered : OfferedStep) : Within Grows (renewCeremony s offered) :=
  transaction_grows.bind fun _ ↦ (Effect.within_pure _).ite
    ((ceremonyParams_grows _).bind fun _ ↦ Effect.within_pure _)

theorem renewEach_grows (offered : List OfferedStep) : Within Grows (renewEach s offered) := by
  induction offered with
  | nil => exact Effect.within_pure _
  | cons offered rest ih =>
    exact (renewCeremony_grows _).bind fun _ ↦ ih.bind fun _ ↦ Effect.within_pure _

theorem refuseAnswer_grows (offer : StepOffer) (step : StepName) (error : StepErrorCode)
    (reason : SignInAuditReason) :
    Within Grows (refuseAnswer s offer step error reason : EngineM α) := by
  refine (audit_grows _ _ _).bind fun _ ↦ (refusedOffer_grows _ _).bind fun refused ↦ ?_
  refine Within.bind ?_ fun renewed ↦ offerStep_grows _ _ _
  exact (renewCeremony_grows _).bind fun _ ↦ (renewEach_grows _).bind fun _ ↦ Effect.within_pure _

/-! ### Proofs -/

theorem checkNamed_grows (account : ProvedAccount) (step : StepName) :
    Within Grows (checkNamed account step) := by
  refine transaction_grows.bind fun T ↦ ?_
  split
  · refine Within.ite ((fromStore_grows (ask_grows _)).bind fun named ↦ ?_) (Effect.within_pure _)
    exact (ended_grows _ _).ite (Effect.within_pure _)
  · exact Effect.within_pure _

theorem prove_grows (offer : StepOffer) (account : ProvedAccount) (read : ReadAnswer)
    (breachCheck : BreachCheckVerdict) : Within Grows (prove s offer account read breachCheck) := by
  refine transaction_grows.bind fun T ↦ (ended_grows _ _).when ?_
  refine (checkNamed_grows _ _).bind fun _ ↦ (refuseAnswer_grows _ _ _ _).when ?_
  refine (refuseAnswer_grows _ _ _ _).when ((ask_grows _).bind fun now ↦ ?_)
  refine Within.bind (writeTransaction_grows fun _ ↦ List.prefix_append _ _) fun _ ↦ ?_
  exact (audit_grows _ _ _).bind fun _ ↦ recordBreach_grows _ _

theorem takeCeremony_grows (step : StepName) : Within Grows (takeCeremony step) := by
  refine transaction_grows.bind fun T ↦ ?_
  split
  · exact Effect.within_pure _
  · exact Within.bind (writeTransaction_grows fun _ ↦ List.prefix_rfl) fun _ ↦ Effect.within_pure _

/-- The pending answer is taken first; what follows keeps to it. -/
theorem verifyPending_eq (offer : StepOffer) :
    ∃ f : ReadAnswer → EngineM Unit, (∀ read, Within Grows (f read)) ∧
      verifyPending s offer = pendingName >>= fun name ↦
        match name with
        | none => fault
        | some name => takePending s offer name >>= f := by
  refine ⟨_, fun read ↦ ?_, rfl⟩
  dsimp only
  refine ((reserveCredentialRound_grows _).bind ?verify).ite ((Effect.within_pure _).bind ?verify)
  refine fun reserved ↦ (takeCeremony_grows _).bind fun ceremonyKey ↦
    (verifyHandler_grows _ _).bind fun verdict ↦ ?_
  split
  · exact spendChallenge_grows.bind fun _ ↦ (settleRound_grows _ _ _).bind fun _ ↦
      refuseAnswer_grows _ _ _ _
  · exact (settleRound_grows _ _ _).bind fun _ ↦ (audit_grows _ _ _).bind fun _ ↦
      throttled_grows _
  · refine spendChallenge_grows.bind fun _ ↦ (prove_grows _ _ _ _).attempt.bind fun proved ↦ ?_
    split
    · exact settleRound_grows _ _ _
    · exact (settleRound_grows _ _ _).bind fun _ ↦ Effect.within_exit _

theorem verifyPending_grows (offer : StepOffer) : Within Grows (verifyPending s offer) := by
  obtain ⟨f, hf, h⟩ := verifyPending_eq (s := s) offer
  rw [h]
  refine pendingName_grows.bind fun name ↦ ?_
  cases name with
  | none => exact fault_grows
  | some name => exact (takePending_grows _ _).bind hf

/-! ### Recovery codes -/

theorem recoveryStatus_grows (subject : String) : Within Grows (recoveryStatus subject) :=
  (fromStore_grows (ask_grows _)).bind fun _ ↦ unavailable_grows.ite (Effect.within_pure _)

theorem recoveryAlternative_grows (subject : String) :
    Within Grows (recoveryAlternative s subject) :=
  transaction_grows.bind fun _ ↦ (Effect.within_pure _).ite
    ((recoveryStatus_grows _).bind fun _ ↦ Effect.within_pure _)

/-- The pending answer is taken first; what follows keeps to it. -/
theorem redeemPending_eq (offer : StepOffer) (subject : String) :
    ∃ f : ReadAnswer → EngineM Unit, (∀ read, Within Grows (f read)) ∧
      redeemPending s offer subject =
        if s.deps.recoveryCodes.isNone then
          fault >>= fun _ : Unit ↦ takePending s offer .recoveryCode >>= f
        else takePending s offer .recoveryCode >>= f := by
  refine ⟨_, fun read ↦ ?_, rfl⟩
  split
  · refine (reserveCredentialRound_grows _).bind fun reserved ↦
      (fromStore_grows (ask_grows _)).bind fun verdict ↦ ?_
    split
    · exact (settleRound_grows _ _ _).bind fun _ ↦ (audit_grows _ _ _).bind fun _ ↦
        throttled_grows _
    · refine spendChallenge_grows.bind fun _ ↦ (fromStore_grows (ask_grows _)).bind fun redeemed ↦
        Within.ite ?_ ?_
      · refine (ask_grows _).bind fun _ ↦ (settleRound_grows _ _ _).bind fun _ ↦ ?_
        exact Within.bind (writeTransaction_grows fun _ ↦ List.prefix_append _ _) fun _ ↦
          audit_grows _ _ _
      · refine (ask_grows _).bind fun _ ↦ (settleRound_grows _ _ _).bind fun _ ↦ ?_
        exact (ask_grows _).when (refuseAnswer_grows _ _ _ _)
  · exact fault_grows

theorem redeemPending_grows (offer : StepOffer) (subject : String) :
    Within Grows (redeemPending s offer subject) := by
  obtain ⟨f, hf, h⟩ := redeemPending_eq (s := s) offer subject
  rw [h]
  exact fault_grows.when ((takePending_grows _ _).bind hf)

theorem verifyAfterFirstFactor_grows (offer : StepOffer) (subject : String) :
    Within Grows (verifyAfterFirstFactor s offer subject) :=
  pendingName_grows.bind fun _ ↦ (redeemPending_grows _ _).ite (verifyPending_grows _)

/-! ### Email codes -/

theorem digestCode_grows (use : CodeUse) (salt code : String) :
    Within Grows (digestCode use salt code) :=
  (fromStore_grows (ask_grows _)).bind fun _ ↦ (Effect.within_pure _).ite unavailable_grows

/-- The procedures that a code's purpose brings keep to it as well. -/
structure CodeSpec.Grows (spec : CodeSpec) : Prop where
  beforeFirst : Within Engine.Grows spec.beforeFirst
  registration : Within Engine.Grows spec.registration
  reset : Within Engine.Grows spec.reset
  refuses : Within Engine.Grows spec.refuses

theorem forSignIn_grows (purpose : EmailCodePurpose) (address subject : String) :
    (CodeSpec.forSignIn purpose address subject).Grows :=
  ⟨Effect.within_pure _, Effect.within_pure _, Effect.within_pure _, Effect.within_pure _⟩

variable {spec : CodeSpec}

theorem issueCode_grows (h : spec.Grows) (previous : Option HeldEmailCode) :
    Within Grows (issueCode spec previous) := by
  refine h.registration.bind fun registration ↦ h.reset.bind fun reset ↦ (ask_grows _).bind
    fun issuedAt ↦ (ask_grows _).bind fun code ↦ (ask_grows _).bind fun salt ↦
    (digestCode_grows _ _ _).bind fun hmac ↦ (fromStore_grows (ask_grows _)).bind fun outcome ↦ ?_
  split
  · exact (audit_grows _ _ _).bind fun _ ↦ throttled_grows _
  · exact writeTransaction_grows fun _ ↦ List.prefix_rfl

theorem issueAndOffer_grows (h : spec.Grows) (previous : Option HeldEmailCode) :
    Within Grows (issueAndOffer spec previous : EngineM α) := by
  refine (issueCode_grows h _).bind fun _ ↦ transaction_grows.bind fun T ↦ ?_
  split
  · exact fault_grows
  · exact (ask_grows _).bind fun _ ↦ offerStep_grows _ _ _

theorem reserveCode_grows : Within Grows (reserveCode s) := by
  refine (reserveCredentialRound_grows _).bind fun reserved ↦ identifierHmac_grows.bind fun hmac ↦
    (fromStore_grows (ask_grows _)).bind fun verdict ↦ ?_
  split
  · exact (settleRound_grows _ _ _).bind fun _ ↦ (audit_grows _ _ _).bind fun _ ↦ throttled_grows _
  · exact Effect.within_pure _

theorem compareCode_grows (h : spec.Grows) (held : HeldEmailCode) (otp : String) (time : ℤ) :
    Within Grows (compareCode spec held otp time) := by
  refine (digestCode_grows _ _ _).bind fun presented ↦ ?_
  split
  · refine h.refuses.bind fun refused ↦ ?_
    split
    · exact Effect.within_pure _
    · split
      · exact Effect.within_pure _
      · exact fault_grows
  · split
    · exact Effect.within_pure _
    · exact fault_grows

theorem settleWrongCode_grows (reserved : Bool) : Within Grows (settleWrongCode reserved) :=
  (ask_grows _).bind fun _ ↦ settleRound_grows _ _ _

theorem answerCode_grows (h : spec.Grows) (held : HeldEmailCode) (otp : String) (time : ℤ) :
    Within Grows (answerCode s spec held otp time) := by
  refine reserveCode_grows.bind fun reserved ↦ spendChallenge_grows.bind fun _ ↦
    (compareCode_grows h _ _ _).bind fun verdict ↦ ?_
  split
  · refine (settleWrongCode_grows _).bind fun _ ↦ ?_
    exact Within.bind (writeTransaction_grows fun _ ↦ List.prefix_rfl) fun _ ↦
      (audit_grows _ _ _).bind fun _ ↦ offerStep_grows _ _ _
  · refine (settleWrongCode_grows _).bind fun _ ↦ ?_
    exact Within.bind (writeTransaction_grows fun _ ↦ List.prefix_rfl) fun _ ↦ ended_grows _ _
  · exact (ask_grows _).bind fun _ ↦ (settleRound_grows _ _ _).bind fun _ ↦ Effect.within_pure _

theorem codeRound_grows (h : spec.Grows) : Within Grows (codeRound s spec) := by
  refine fault_grows.when (transaction_grows.bind fun T ↦ ?_)
  split
  · exact h.beforeFirst.bind fun _ ↦ issueAndOffer_grows h _
  · refine (ask_grows _).bind fun time ↦ pendingName_grows.bind fun name ↦
      (offerStep_grows _ _ _).when ((takePending_grows _ _).bind fun read ↦ ?_)
    split
    · exact (issueAndOffer_grows h _).ite (offerStep_grows _ _ _)
    · refine Within.ite
        ((audit_grows _ _ _).bind fun _ ↦ (offerStep_grows _ _ _).bind fun _ ↦ ?_) ?_
      all_goals exact (answerCode_grows h _ _ _).bind fun _ ↦ Effect.within_pure _
    · exact fault_grows

theorem codeTaken_grows (params : StepParams) : Within Grows (codeTaken params) :=
  Within.bind (writeTransaction_grows fun _ ↦ List.prefix_append _ _) fun _ ↦ audit_grows _ _ _

theorem verifyAddress_grows (subject : String) (purpose : EmailCodePurpose) :
    Within Grows (verifyAddress s subject purpose) := by
  refine transaction_grows.bind fun T ↦ ?_
  dsimp only
  split
  · exact redirect_grows _
  · refine (redirect_grows _).when ((codeRound_grows (forSignIn_grows _ _ _)).bind ?_)
    rintro ⟨params, candidate⟩
    refine (fromStore_grows (ask_grows _)).bind fun outcome ↦ ?_
    split
    · exact Within.bind (writeTransaction_grows fun _ ↦ List.prefix_rfl) fun _ ↦ ended_grows _ _
    · exact codeTaken_grows _

/-! ### Authenticator apps -/

theorem proveMailbox_grows (subject : String) : Within Grows (proveMailbox s subject) := by
  refine transaction_grows.bind fun T ↦ Within.ite ?_ (Effect.within_pure _)
  exact (redirect_grows _).when (verifyAddress_grows _ _)

theorem freshFactor_grows : Within Grows freshFactor := by
  refine transaction_grows.bind fun T ↦ ?_
  split
  · exact Effect.within_pure _
  · exact (ask_grows _).bind fun _ ↦ Effect.within_pure _

theorem shownTotp_grows (label : String) (display : TotpDisplay) :
    Within Grows (shownTotp s label display) :=
  (Effect.within_pure _).ite unavailable_grows

theorem requireFreshFactor_grows : Within Grows requireFreshFactor := by
  refine freshFactor_grows.bind fun fresh ↦ Within.ite ?_ (Effect.within_pure _)
  exact Within.bind (writeTransaction_grows fun _ ↦ List.prefix_rfl) fun _ ↦ ended_grows _ _

theorem startTotp_grows (subject label : String) :
    Within Grows (startTotp s subject label : EngineM α) := by
  refine (fromStore_grows (ask_grows _)).bind fun started ↦ unavailable_grows.when
    ((shownTotp_grows _ _).bind fun personal ↦ ?_)
  refine Within.bind (writeTransaction_grows fun _ ↦ List.prefix_rfl) fun _ ↦ pendingName_grows.bind
    fun name ↦ dropPending_grows.when (offerStep_grows _ _ _)

theorem showTotp_grows (subject label sealedSecret : String) (error : Option StepErrorCode) :
    Within Grows (showTotp s subject label sealedSecret error : EngineM α) :=
  (fromStore_grows (ask_grows _)).bind fun _ ↦ (shownTotp_grows _ _).bind fun _ ↦
    offerStep_grows _ _ _

theorem checkFirstCode_grows (subject label sealedSecret : String) :
    Within Grows (checkFirstCode s subject label sealedSecret) := by
  refine pendingName_grows.bind fun name ↦ (showTotp_grows _ _ _ _).when
    ((takePending_grows _ _).bind fun read ↦ ?_)
  split
  · refine (reserveCredentialRound_grows _).bind fun reserved ↦ spendChallenge_grows.bind fun _ ↦
      (fromStore_grows (ask_grows _)).bind fun check ↦ ?_
    split
    · exact (settleRound_grows _ _ _).bind fun _ ↦ (audit_grows _ _ _).bind fun _ ↦
        showTotp_grows _ _ _ _
    · refine unavailable_grows.when ((settleRound_grows _ _ _).bind fun _ ↦ ?_)
      exact Within.bind (writeTransaction_grows fun _ ↦ List.prefix_rfl) fun _ ↦
        Effect.within_pure _
  · exact fault_grows

theorem bindTotp_grows (subject sealedSecret : String) (step : ℤ) :
    Within Grows (bindTotp subject sealedSecret step) := by
  refine (fromStore_grows (ask_grows _)).bind fun binding ↦ ?_
  split
  · refine (ask_grows _).bind fun now ↦ ?_
    exact Within.bind (writeTransaction_grows fun _ ↦ List.prefix_append _ _) fun _ ↦
      audit_grows _ _ _
  · exact Within.bind (writeTransaction_grows fun _ ↦ List.prefix_rfl) fun _ ↦ ended_grows _ _
  · exact Within.bind (writeTransaction_grows fun _ ↦ List.prefix_rfl) fun _ ↦ ended_grows _ _

theorem enrolTotp_grows (current : SignInAccount) (subject : String) :
    Within Grows (enrolTotp s current subject) := by
  refine transaction_grows.bind fun T ↦ ?_
  split
  · exact redirect_grows _
  · refine (redirect_grows _).when (requireFreshFactor_grows.bind fun _ ↦ ?_)
    dsimp only
    suffices henrol : Within Grows _ from Within.ite ((redirect_grows _).when
      ((verifyAddress_grows _ _).bind fun _ ↦ requireFreshFactor_grows.bind fun _ ↦ henrol)) henrol
    refine transaction_grows.bind fun T ↦ ?_
    split
    · exact startTotp_grows _ _
    · have hbind : ∀ sealedSecret step, Within Grows (do
          if !boundBeyondPassword current then proveMailbox s subject
          requireFreshFactor
          bindTotp subject sealedSecret step) := fun _ _ ↦ (proveMailbox_grows _).when
        (requireFreshFactor_grows.bind fun _ ↦ bindTotp_grows _ _ _)
      split
      · exact (Effect.within_pure _).bind fun step ↦ hbind _ step
      · exact (checkFirstCode_grows _ _ _).bind fun step ↦ hbind _ step

/-! ### Rule 8 -/

theorem readAccount_grows (subject : String) : Within Grows (readAccount subject) := by
  refine (fromStore_grows (ask_grows _)).bind fun account ↦ ?_
  split
  · exact ended_grows _ _
  · exact (ended_grows _ _).when ((ended_grows _ _).when (Effect.within_pure _))

theorem neededNow_grows (policy : MfaPolicy) (current : SignInAccount) (subject : String) :
    Within Grows (neededNow s policy current subject) := by
  refine transaction_grows.bind fun T ↦ ?_
  have hcode : ∀ steps first, Within Grows (do
      let code ← recoveryAlternative s subject
      return Needed.factors (steps ++ code) first) :=
    fun _ _ ↦ (recoveryAlternative_grows _).bind fun _ ↦ Effect.within_pure _
  refine Within.ite (hcode _ _) (Within.ite (hcode _ _) (Within.ite ?_ ?_))
  · exact (hcode _ _).ite ((Effect.within_pure _).ite (Effect.within_pure _))
  · exact (Effect.within_pure _).ite ((hcode _ _).ite (Effect.within_pure _))

theorem proveNeeded_grows (current : SignInAccount) (subject : String) (steps : List Offerable)
    (addressFirst : Bool) : Within Grows (proveNeeded s current subject steps addressFirst) := by
  refine transaction_grows.bind fun T ↦ (verifyAddress_grows _ _).when ((redirect_grows _).when ?_)
  refine (offerOf_grows _ _).bind fun offer ↦ (answers_grows _).bind fun answered ↦ ?_
  exact (offerStep_grows _ _ _).when (verifyAfterFirstFactor_grows _ _)

end QAuth.Engine
