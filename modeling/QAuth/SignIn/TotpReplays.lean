import QAuth.Foundation.Run
import QAuth.SignIn.Totp

/-!
# An accepted code is not always refused afterwards

Any number of checks of one account's codes run at once. Each reads the row, matches its code
against a clock, and takes the step in one write that only a lower last step passes. So no step is
taken twice, and a code is accepted a second time, while it still is a code of its step, if and
only if the secret has it at two steps of one window.
-/

namespace QAuth.SignIn

open Transition

/-- An account's TOTP, as the store holds it. -/
structure StoredTotp where
  sealed : String
  lastStep : ℕ
  disabled : Bool
  deriving DecidableEq

/-- How far a check has come. -/
inductive VerifyStage
  | called
  | read (stored : StoredTotp)
  | matched (nowMs : ℤ) (step : ℕ)
  | ended
  deriving DecidableEq

structure TotpVerify where
  code : String
  stage : VerifyStage
  deriving DecidableEq

/-- A code that was accepted: for which step, and by which time. -/
structure TotpAcceptance where
  code : String
  step : ℕ
  nowMs : ℤ
  deriving DecidableEq

/-- The row, the checks, and what was accepted, the newest first. -/
structure Totp where
  row : Option StoredTotp
  calls : List TotpVerify
  accepted : List TotpAcceptance
  deriving DecidableEq

/-- The write that takes a step: the row afterwards, and whether the step was taken. -/
def acceptTotpStep (row : Option StoredTotp) (step : ℕ) : Option StoredTotp × Bool :=
  match row with
  | none => (none, false)
  | some stored =>
    if step ≤ MAX_COUNTER ∧ stored.disabled = false ∧ stored.lastStep < step then
      (some { stored with lastStep := step }, true)
    else (some stored, false)

inductive TotpAction
  /-- A round presents a code. -/
  | verify (code : String)
  /-- A check reads the row. -/
  | read (i : ℕ)
  /-- It opens the secret, reads the clock and matches its code. -/
  | matchCode (i : ℕ) (nowMs : ℤ)
  /-- It takes the step. -/
  | accept (i : ℕ)
  /-- It fails: the store or the cipher throws. -/
  | fail (i : ℕ)
  /-- The hard action disables the row, or its mark is cleared. -/
  | setDisabled (disabled : Bool)

/-- The cipher's `open`; `none` is a throw. -/
abbrev OpenTotp : Type := String → Option (List UInt8)

/-- The secret that a ciphertext holds. -/
def openSecret (cipherOpen : OpenTotp) (sealed : String) : Option (List UInt8) :=
  (cipherOpen sealed).filter fun secret ↦ secret.length = TOTP_SECRET_BYTES

namespace Totp

def setStage (s : Totp) (i : ℕ) (call : TotpVerify) (stage : VerifyStage) : Totp :=
  { s with calls := s.calls.set i { call with stage } }

variable (hmac : HmacSha1) (cipherOpen : OpenTotp)

/-- The stage of a check that has read the row. -/
def matchStage (code : String) (stored : StoredTotp) (nowMs : ℤ) : VerifyStage :=
  match openSecret cipherOpen stored.sealed with
  | none => .ended
  | some secret =>
    match matchTotpCode hmac secret code nowMs stored.lastStep with
    | some (some step) => .matched nowMs step
    | _ => .ended

def step (s : Totp) : TotpAction → Option Totp
  | .verify code => some { s with calls := s.calls ++ [⟨code, .called⟩] }
  | .read i =>
    s.calls[i]?.bind fun call ↦
      match call.stage with
      | .called =>
        match s.row with
        | some stored =>
          if stored.disabled then some (s.setStage i call .ended)
          else some (s.setStage i call (.read stored))
        | none => some (s.setStage i call .ended)
      | _ => none
  | .matchCode i nowMs =>
    s.calls[i]?.bind fun call ↦
      match call.stage with
      | .read stored =>
        some (s.setStage i call (matchStage hmac cipherOpen call.code stored nowMs))
      | _ => none
  | .accept i =>
    s.calls[i]?.bind fun call ↦
      match call.stage with
      | .matched nowMs step =>
        let (row, taken) := acceptTotpStep s.row step
        some { s.setStage i call .ended with
          row
          accepted := if taken then ⟨call.code, step, nowMs⟩ :: s.accepted else s.accepted }
      | _ => none
  | .fail i => s.calls[i]?.map fun call ↦ s.setStage i call .ended
  | .setDisabled disabled => some { s with row := s.row.map ({ · with disabled }) }

def AcceptedOnce (s : Totp) : Prop :=
  s.accepted.Pairwise fun later earlier ↦
    later.code = earlier.code → ¬InWindow earlier.step later.nowMs

instance (s : Totp) : Decidable s.AcceptedOnce := inferInstanceAs (Decidable (List.Pairwise ..))

/-- An account's row, before any check of it. -/
def bound (stored : StoredTotp) : Totp := ⟨some stored, [], []⟩

end Totp

/-- No code is that of two steps of one window, among the steps after the last accepted one. -/
def StepsApart (hmac : HmacSha1) (secret : List UInt8) (lastStep : ℕ) : Prop :=
  ∀ earlier later code, lastStep < earlier → earlier < later →
    later ≤ earlier + 2 * TOTP_TOLERANCE_STEPS → totpCode hmac secret earlier = some code →
      totpCode hmac secret later ≠ some code

/-! ### The steps that are accepted -/

variable {hmac : HmacSha1} {cipherOpen : OpenTotp} {stored row : StoredTotp} {s t : Totp}
  {a : TotpAction} {as : List TotpAction} {call : TotpVerify} {i : ℕ} {x : TotpAcceptance}
  {secret : List UInt8}

/-- The row is that of the account, after some accepted steps. -/
structure RowOf (stored row : StoredTotp) : Prop where
  sealed : row.sealed = stored.sealed
  lastStep : stored.lastStep ≤ row.lastStep

/-- The account's secret has the code at the step, which is in the window and new to the row. -/
structure Valid (hmac : HmacSha1) (cipherOpen : OpenTotp) (stored : StoredTotp)
    (x : TotpAcceptance) : Prop where
  later : stored.lastStep < x.step
  within : InWindow x.step x.nowMs
  code : ∃ secret, openSecret cipherOpen stored.sealed = some secret ∧
    totpCode hmac secret x.step = some x.code

def StageOk (hmac : HmacSha1) (cipherOpen : OpenTotp) (stored : StoredTotp) (code : String) :
    VerifyStage → Prop
  | .read row => RowOf stored row
  | .matched nowMs step => Valid hmac cipherOpen stored ⟨code, step, nowMs⟩
  | _ => True

structure TotpSound (hmac : HmacSha1) (cipherOpen : OpenTotp) (stored : StoredTotp)
    (s : Totp) : Prop where
  row : ∀ row, s.row = some row → RowOf stored row
  last : ∀ row, s.row = some row → ∀ x ∈ s.accepted, x.step ≤ row.lastStep
  calls : ∀ call ∈ s.calls, StageOk hmac cipherOpen stored call.code call.stage
  accepted : ∀ x ∈ s.accepted, Valid hmac cipherOpen stored x
  rising : s.accepted.Pairwise fun later earlier ↦ earlier.step < later.step

theorem TotpSound.bound : TotpSound hmac cipherOpen stored (.bound stored) where
  row row hrow := by
    cases hrow
    exact ⟨rfl, le_rfl⟩
  last _ _ _ hx := by cases hx
  calls _ hcall := by cases hcall
  accepted _ hx := by cases hx
  rising := .nil

theorem TotpSound.setStage (hs : TotpSound hmac cipherOpen stored s) {stage : VerifyStage}
    (hok : StageOk hmac cipherOpen stored call.code stage) :
    TotpSound hmac cipherOpen stored (s.setStage i call stage) :=
  { hs with
    calls := by
      intro c hc
      rcases List.mem_or_eq_of_mem_set hc with hc | rfl
      · exact hs.calls c hc
      · exact hok }

theorem stageOk_matchStage (hrow : RowOf stored row) (code : String) (nowMs : ℤ) :
    StageOk hmac cipherOpen stored code (Totp.matchStage hmac cipherOpen code row nowMs) := by
  rw [Totp.matchStage]
  split
  · trivial
  · rename_i secret hopen
    split
    · rename_i step hmatch
      obtain ⟨hcode, hwithin, hlater⟩ := matched_of_matchTotpCode hmatch
      have hlast := hrow.lastStep
      rw [hrow.sealed] at hopen
      exact ⟨by show stored.lastStep < step; omega, hwithin, secret, hopen, hcode⟩
    · trivial

/-- A step is taken from an enabled row whose last step is lower, and nothing else is written. -/
theorem acceptTotpStep_cases (current : Option StoredTotp) (step : ℕ) :
    acceptTotpStep current step = (current, false) ∨
      ∃ row, current = some row ∧ row.lastStep < step ∧
        acceptTotpStep current step = (some { row with lastStep := step }, true) := by
  cases current with
  | none => exact .inl rfl
  | some row =>
    rw [acceptTotpStep]
    split
    · rename_i h
      exact .inr ⟨row, rfl, h.2.2, rfl⟩
    · exact .inl rfl

theorem TotpSound.accept (hs : TotpSound hmac cipherOpen stored s)
    (hx : Valid hmac cipherOpen stored x) (hrow : s.row = some row) (hlt : row.lastStep < x.step) :
    TotpSound hmac cipherOpen stored
      { s with row := some { row with lastStep := x.step }, accepted := x :: s.accepted } where
  row _ h := by
    cases h
    have hold := hs.row row hrow
    exact ⟨hold.sealed, hold.lastStep.trans hlt.le⟩
  last _ h y hy := by
    cases h
    rcases List.mem_cons.mp hy with rfl | hy
    · exact le_rfl
    · exact (hs.last row hrow y hy).trans hlt.le
  calls := hs.calls
  accepted := List.forall_mem_cons.mpr ⟨hx, hs.accepted⟩
  rising := List.pairwise_cons.mpr
    ⟨fun y hy ↦ (hs.last row hrow y hy).trans_lt hlt, hs.rising⟩

theorem TotpSound.step (hs : TotpSound hmac cipherOpen stored s)
    (hstep : s.step hmac cipherOpen a = some t) : TotpSound hmac cipherOpen stored t := by
  cases a with
  | verify code =>
    cases hstep
    refine { hs with calls := fun c hc ↦ ?_ }
    rcases List.mem_append.mp hc with hc | hc
    · exact hs.calls c hc
    · rw [List.mem_singleton.mp hc]
      trivial
  | read i =>
    obtain ⟨call, -, hstep⟩ := Option.bind_eq_some_iff.mp hstep
    split at hstep
    · split at hstep
      · rename_i row hrow
        split at hstep <;> cases hstep
        · exact hs.setStage trivial
        · exact hs.setStage (hs.row row hrow)
      · cases hstep
        exact hs.setStage trivial
    · cases hstep
  | matchCode i nowMs =>
    obtain ⟨call, hget, hstep⟩ := Option.bind_eq_some_iff.mp hstep
    split at hstep
    · rename_i row hstage
      have hrow := hs.calls call (List.mem_of_getElem? hget)
      rw [hstage] at hrow
      cases hstep
      exact hs.setStage (stageOk_matchStage hrow call.code nowMs)
    · cases hstep
  | accept i =>
    obtain ⟨call, hget, hstep⟩ := Option.bind_eq_some_iff.mp hstep
    split at hstep
    · rename_i nowMs step hstage
      have hvalid := hs.calls call (List.mem_of_getElem? hget)
      rw [hstage] at hvalid
      have hended : TotpSound hmac cipherOpen stored (s.setStage i call .ended) :=
        hs.setStage trivial
      rcases acceptTotpStep_cases s.row step with htaken | ⟨row, hrow, hlt, htaken⟩
      · rw [htaken] at hstep
        cases hstep
        exact hended
      · rw [htaken] at hstep
        cases hstep
        exact hended.accept (x := ⟨call.code, step, nowMs⟩) hvalid hrow hlt
    · cases hstep
  | fail i =>
    obtain ⟨call, -, rfl⟩ := Option.map_eq_some_iff.mp hstep
    exact hs.setStage trivial
  | setDisabled disabled =>
    cases hstep
    refine { hs with row := fun row' hrow' ↦ ?_, last := fun row' hrow' ↦ ?_ } <;>
    · obtain ⟨row, hrow, rfl⟩ := Option.map_eq_some_iff.mp hrow'
      first
      | exact hs.last row hrow
      | exact ⟨(hs.row row hrow).sealed, (hs.row row hrow).lastStep⟩

/-- The accepted steps rise, and each has the code that it was accepted for. -/
theorem totpSound_of_run (h : Run (Totp.step hmac cipherOpen) (.bound stored) as s) :
    TotpSound hmac cipherOpen stored s :=
  h.induct (fun _ _ _ hs hstep ↦ hs.step hstep) .bound

/-- Two steps of one window are not far apart. -/
theorem InWindow.le_add {m n : ℕ} {nowMs : ℤ} (hm : InWindow m nowMs) (hn : InWindow n nowMs) :
    n ≤ m + 2 * TOTP_TOLERANCE_STEPS := by
  obtain ⟨hlow, -⟩ := hm
  obtain ⟨-, hhigh⟩ := hn
  omega

theorem TotpSound.acceptedOnce (hs : TotpSound hmac cipherOpen stored s)
    (hapart : ∀ secret, openSecret cipherOpen stored.sealed = some secret →
      StepsApart hmac secret stored.lastStep) : s.AcceptedOnce := by
  refine hs.rising.imp_of_mem fun {later earlier} hlater hearlier hlt hcode hwindow ↦ ?_
  obtain ⟨secret, hopen, hfirst⟩ := (hs.accepted earlier hearlier).code
  obtain ⟨secret', hopen', hsecond⟩ := (hs.accepted later hlater).code
  rw [hopen] at hopen'
  cases hopen'
  rw [hcode] at hsecond
  exact hapart secret hopen earlier.step later.step earlier.code
    (hs.accepted earlier hearlier).later hlt
    (hwindow.le_add (hs.accepted later hlater).within) hfirst hsecond

/-! ### A code of two steps -/

/-- A check that nothing comes between takes the step that its code is matched to. -/
theorem run_verify {code : String} {nowMs : ℤ} {step : ℕ} (hrow : s.row = some row)
    (henabled : row.disabled = false)
    (hopen : openSecret cipherOpen row.sealed = some secret)
    (hmatch : matchTotpCode hmac secret code nowMs row.lastStep = some (some step))
    (hsafe : step ≤ MAX_COUNTER) (hlt : row.lastStep < step) :
    Run (Totp.step hmac cipherOpen) s
      [.verify code, .read s.calls.length, .matchCode s.calls.length nowMs,
        .accept s.calls.length]
      ⟨some { row with lastStep := step }, s.calls ++ [⟨code, .ended⟩],
        ⟨code, step, nowMs⟩ :: s.accepted⟩ := by
  have hget : ∀ stage, (s.calls ++ [(⟨code, stage⟩ : TotpVerify)])[s.calls.length]? =
      some ⟨code, stage⟩ := fun stage ↦ List.getElem?_concat_length
  have hset : ∀ stage stage', (s.calls ++ [(⟨code, stage⟩ : TotpVerify)]).set s.calls.length
      ⟨code, stage'⟩ = s.calls ++ [⟨code, stage'⟩] := fun stage stage' ↦ by simp
  have htaken : acceptTotpStep s.row step = (some { row with lastStep := step }, true) := by
    rw [hrow, acceptTotpStep, if_pos ⟨hsafe, henabled, hlt⟩]
  have hstage : Totp.matchStage hmac cipherOpen code row nowMs = .matched nowMs step := by
    rw [Totp.matchStage, hopen]
    simp only [hmatch]
  refine .cons (t := ⟨s.row, s.calls ++ [⟨code, .called⟩], s.accepted⟩) rfl ?_
  refine .cons (t := ⟨s.row, s.calls ++ [⟨code, .read row⟩], s.accepted⟩) ?_ ?_
  · simp only [Totp.step, hget, Option.bind_some, hrow, henabled, Totp.setStage, hset]
    rfl
  refine .cons (t := ⟨s.row, s.calls ++ [⟨code, .matched nowMs step⟩], s.accepted⟩) ?_ ?_
  · simp only [Totp.step, hget, Option.bind_some, hstage, Totp.setStage, hset]
  refine .cons ?_ (.nil _)
  simp only [Totp.step, hget, Option.bind_some, htaken, Totp.setStage, hset, if_true]

theorem exists_accepted_twice (hopen : openSecret cipherOpen stored.sealed = some secret)
    (h : ¬StepsApart hmac secret stored.lastStep) :
    ∃ as s, Run (Totp.step hmac cipherOpen) (.bound stored) as s ∧ ¬s.AcceptedOnce := by
  rw [StepsApart] at h
  push Not at h
  obtain ⟨earlier, later, code, hlast, hlt, hle, hearlier, hlater⟩ := h
  have hmax : later ≤ MAX_COUNTER :=
    totpCode_isSome_iff.mp (Option.isSome_iff_exists.mpr ⟨code, hlater⟩)
  -- the later step is the last one of this clock's window
  let nowMs : ℤ := 30000 * (later - TOTP_TOLERANCE_STEPS)
  have hnow : totpStep nowMs = later - TOTP_TOLERANCE_STEPS := by
    simp only [totpStep, nowMs, TOTP_PERIOD_SECONDS]
    omega
  have hsafe : totpStep nowMs + TOTP_TOLERANCE_STEPS ≤ MAX_COUNTER := by omega
  have hwindow : ∀ m ≤ later, earlier ≤ m → InWindow m nowMs := by
    intro m hm hm'
    rw [InWindow, hnow]
    omega
  obtain ⟨first, hfirstLe, hfirst⟩ := matchTotpCode_of_fits hsafe hearlier
    (hwindow earlier hlt.le le_rfl) (Int.ofNat_lt.mpr hlast)
  have hfirstLt : (first : ℤ) < later := by omega
  obtain ⟨second, hsecondLe, hsecond⟩ := matchTotpCode_of_fits hsafe hlater
    (hwindow later le_rfl hlt.le) hfirstLt
  obtain ⟨-, hfirstWindow, hfirstNew⟩ := matched_of_matchTotpCode hfirst
  obtain ⟨-, -, hsecondNew⟩ := matched_of_matchTotpCode hsecond
  have henable : Run (Totp.step hmac cipherOpen) (.bound stored) [.setDisabled false]
      (.bound { stored with disabled := false }) := .cons rfl (.nil _)
  have hrun := henable.append (run_verify rfl rfl hopen hfirst (by omega)
    (Int.ofNat_lt.mp hfirstNew))
  refine ⟨_, _, hrun.append (run_verify rfl rfl hopen hsecond (by omega)
    (Int.ofNat_lt.mp hsecondNew)), ?_⟩
  intro hone
  exact List.rel_of_pairwise_cons hone List.mem_cons_self rfl hfirstWindow

/-- No code is accepted twice within its window, in any order of the checks, if and only if the
secret has no code at two steps of one window. -/
theorem accepted_once_iff (hmac : HmacSha1) (cipherOpen : OpenTotp) (stored : StoredTotp) :
    (∀ as s, Run (Totp.step hmac cipherOpen) (.bound stored) as s → s.AcceptedOnce) ↔
      ∀ secret, openSecret cipherOpen stored.sealed = some secret →
        StepsApart hmac secret stored.lastStep := by
  constructor
  · intro h secret hopen
    by_contra hclash
    obtain ⟨as, s, hrun, hnot⟩ := exists_accepted_twice hopen hclash
    exact hnot (h as s hrun)
  · intro hapart as s hrun
    exact (totpSound_of_run hrun).acceptedOnce hapart

/-! ### Six digits of two steps that follow each other -/

/-- The secret of the standard's test vectors. -/
def sampleSecret : List UInt8 := "12345678901234567890".toUTF8.toList

/-- HMAC-SHA-1 of the sample secret and the steps around 59061240. -/
def sampleHmac : HmacSha1 := fun _ message ↦
  if message = Bytes.be 8 59061239 then
    #v[31, 174, 12, 125, 112, 225, 109, 37, 116, 203, 107, 127, 32, 153, 17, 229, 200, 210, 66, 197]
  else if message = Bytes.be 8 59061240 then
    #v[2, 200, 252, 213, 37, 168, 217, 148, 12, 135, 38, 126, 45, 50, 76, 25, 34, 184, 160, 185]
  else
    #v[233, 221, 54, 228, 174, 236, 205, 70, 156, 33, 150, 45, 11, 181, 233, 70, 119, 7, 204, 88]

/-- The code 963181 of the sample secret is that of 59061240 and of the next step: it is accepted,
and accepted again in the same second. -/
theorem accepted_twice_sample :
    ∃ s, Run (Totp.step sampleHmac fun _ ↦ some sampleSecret)
        (.bound ⟨"v1.sealed", 59061200, false⟩)
        [.verify "963181", .read 0, .matchCode 0 1771837200000, .accept 0,
          .verify "963181", .read 1, .matchCode 1 1771837201000, .accept 1] s ∧
      ¬s.AcceptedOnce := by
  refine ⟨⟨some ⟨"v1.sealed", 59061241, false⟩, [⟨"963181", .ended⟩, ⟨"963181", .ended⟩],
    [⟨"963181", 59061241, 1771837201000⟩, ⟨"963181", 59061240, 1771837200000⟩]⟩, ?_, by decide⟩
  exact .of_exec (by decide +kernel)

end QAuth.SignIn
