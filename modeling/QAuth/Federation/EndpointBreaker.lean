import Mathlib.Data.Finset.Dedup
import Mathlib.Tactic.NormNum
import QAuth.Federation.StatusChecker
import QAuth.Foundation.Circuit

/-!
# Runs of the breaker

The calls a breaker of `status-endpoint-breaker.ts` receives, in any order of origins, with
results that come late. While the origins are no more than it tracks, none is evicted, and what it
keeps of an origin is a circuit that sees the calls of that origin alone.
-/

namespace QAuth.Federation

/-- A call of a breaker. -/
inductive BreakerCall
  | allows (uri : String) (first second : Instant)
  | recordSuccess (uri : String)
  | recordFailure (uri : String) (time : Instant)

namespace BreakerCall

/-- The URI of the status list a call is about. -/
def uri : BreakerCall → String
  | .allows uri _ _ => uri
  | .recordSuccess uri => uri
  | .recordFailure uri _ => uri

/-- When a call reads the clock. -/
def readings : BreakerCall → List ℕ
  | .allows _ first second => [first.ms, second.ms]
  | .recordSuccess _ => []
  | .recordFailure _ time => [time.ms]

/-- A call as the circuit of its origin sees it. -/
def event : BreakerCall → Circuit.Event ℚ
  | .allows _ first second => .ask first.ms second.ms
  | .recordSuccess _ => .success
  | .recordFailure _ time => .failure time.ms

end BreakerCall

/-- The calls come one after the other. -/
def InOrder (calls : List BreakerCall) : Prop :=
  (calls.flatMap BreakerCall.readings).Pairwise (· ≤ ·)

section Run

variable {β : Type} (B : Breaker β)

def afterCall (states : β) : BreakerCall → β
  | .allows uri first second => (B.allows states uri first second).2
  | .recordSuccess uri => B.recordSuccess states uri
  | .recordFailure uri time => B.recordFailure states uri time

def statesAfter (calls : List BreakerCall) : β := calls.foldl (afterCall B) B.initial

/-- The answer to a request after a list of calls. -/
def admits (calls : List BreakerCall) (uri : String) (first second : Instant) : Bool :=
  (B.allows (statesAfter B calls) uri first second).1

end Run

section Law

variable {originOf : String → Option String} {options : StatusEndpointBreakerOptions}
  {states : OriginStates} {ks : Finset String} {o o' uri : String} {first second time : Instant}
  {call : BreakerCall} {calls pre mid : List BreakerCall}

/-- The origins that calls are about. -/
def origins (originOf : String → Option String) (calls : List BreakerCall) : Finset String :=
  (calls.filterMap fun c ↦ originOf c.uri).toFinset

/-- What the circuit of `o` sees of a call. -/
def eventFor (originOf : String → Option String) (o : String) (call : BreakerCall) :
    Option (Circuit.Event ℚ) :=
  if originOf call.uri = some o then some call.event else none

/-- The failures recorded for `o` since its last success. -/
def failuresInARow (originOf : String → Option String) (o : String) (calls : List BreakerCall) :
    ℕ :=
  Circuit.failuresInARow (calls.filterMap (eventFor originOf o))

def OriginState.circuit (state : OriginState) : Circuit ℚ where
  failures := state.consecutiveFailures
  openUntil := if state.openUntilMs = 0 then none else some state.openUntilMs

/-- The circuit of an origin; one that is not tracked is closed. -/
def circuitOf (states : OriginStates) (o : String) : Circuit ℚ :=
  ((states.lookup o).map OriginState.circuit).getD Circuit.fresh

/-- The circuit of `o` as `options` have it. -/
abbrev circuitStep (options : StatusEndpointBreakerOptions) :=
  Circuit.step options.limits.failureThreshold options.limits.openDurationMs

theorem openUntilMs_ne_zero : (time.ms : ℚ) + options.limits.openDurationMs ≠ 0 := by
  have hpos : 0 < options.limits.openDurationMs := options.limits.duration_pos
  positivity

theorem circuitOf_assign {state : OriginState} (hmem : (states.lookup o).isSome) :
    circuitOf (LruMap.assign states o state) o' =
      if o' = o then state.circuit else circuitOf states o' := by
  rw [circuitOf, LruMap.lookup_assign]
  split
  · obtain ⟨old, hold⟩ := Option.isSome_iff_exists.mp hmem
    rw [hold]
    rfl
  · rfl

/-- A state that is touched and then changed in place. -/
theorem circuitOf_assign_touch {cap : ℕ} {state : OriginState} (hroom : LruMap.Room cap ks states)
    (ho : o ∈ ks) :
    circuitOf (LruMap.assign (LruMap.touch cap states o ⟨0, 0⟩).2 o state) o' =
      if o' = o then state.circuit else circuitOf states o' := by
  have hself : ((LruMap.touch cap states o ⟨0, 0⟩).2.lookup o).isSome := by
    rw [LruMap.lookup_touch hroom ho, if_pos rfl]
    rfl
  rw [circuitOf_assign hself]
  split
  · rfl
  · rename_i hne
    rw [circuitOf, LruMap.lookup_touch hroom ho, if_neg hne, circuitOf]

/-- The counts of an origin that is not tracked start from zero. -/
theorem circuit_touched (states : OriginStates) (o : String) :
    ((states.lookup o).getD ⟨0, 0⟩).circuit = circuitOf states o := by
  rw [circuitOf]
  cases states.lookup o with
  | none => rfl
  | some state => rfl

/-- A request is answered as the circuit of its origin answers it. -/
theorem allows_eq_step (horigin : originOf uri = some o) :
    ((createStatusEndpointBreaker originOf options).allows states uri first second).1 = true ↔
      (circuitStep options (circuitOf states o) (.ask first.ms second.ms)).1 = some true := by
  simp only [createStatusEndpointBreaker, horigin, circuitOf]
  cases states.lookup o with
  | none => simp [Circuit.step, Circuit.fresh]
  | some state =>
    by_cases hclosed : state.openUntilMs = 0
    · simp [Circuit.step, OriginState.circuit, hclosed]
    · by_cases hlt : (first.ms : ℚ) < state.openUntilMs
      · simp [Circuit.step, OriginState.circuit, hclosed, hlt]
      · simp [Circuit.step, OriginState.circuit, hclosed, hlt]

/-- A URI without an origin is refused and changes nothing. -/
theorem afterCall_of_none (h : originOf call.uri = none) :
    afterCall (createStatusEndpointBreaker originOf options) states call = states := by
  cases call with
  | allows uri first second =>
    have horigin : originOf uri = none := h
    simp only [afterCall, createStatusEndpointBreaker, horigin]
  | recordSuccess uri =>
    have horigin : originOf uri = none := h
    simp only [afterCall, createStatusEndpointBreaker, horigin]
  | recordFailure uri time =>
    have horigin : originOf uri = none := h
    simp only [afterCall, createStatusEndpointBreaker, horigin]

theorem room_afterCall (hroom : LruMap.Room options.limits.maxTrackedOrigins ks states)
    (horigin : originOf call.uri = some o) (ho : o ∈ ks) :
    LruMap.Room options.limits.maxTrackedOrigins ks
      (afterCall (createStatusEndpointBreaker originOf options) states call) := by
  cases call with
  | allows uri first second =>
    have horigin : originOf uri = some o := horigin
    simp only [afterCall, createStatusEndpointBreaker, horigin]
    cases states.lookup o with
    | none => exact hroom
    | some state =>
      dsimp only
      split_ifs
      · exact hroom
      · exact hroom
      · exact hroom.assigned
  | recordSuccess uri =>
    have horigin : originOf uri = some o := horigin
    simp only [afterCall, createStatusEndpointBreaker, horigin]
    exact (hroom.touched ho).assigned
  | recordFailure uri time =>
    have horigin : originOf uri = some o := horigin
    simp only [afterCall, createStatusEndpointBreaker, horigin]
    exact (hroom.touched ho).assigned

/-- A call moves the circuit of its origin as the circuit's own step does, and no other. -/
theorem circuitOf_afterCall (hroom : LruMap.Room options.limits.maxTrackedOrigins ks states)
    (horigin : originOf call.uri = some o) (ho : o ∈ ks) :
    circuitOf (afterCall (createStatusEndpointBreaker originOf options) states call) o' =
      if o' = o then (circuitStep options (circuitOf states o) call.event).2
      else circuitOf states o' := by
  cases call with
  | allows uri first second =>
    have horigin : originOf uri = some o := horigin
    simp only [afterCall, createStatusEndpointBreaker, horigin, BreakerCall.event]
    cases hlookup : states.lookup o with
    | none =>
      have hfresh : circuitOf states o = Circuit.fresh := by rw [circuitOf, hlookup]; rfl
      rw [hfresh]
      dsimp only [Circuit.step, Circuit.fresh]
      split
      · rename_i heq
        rw [heq, hfresh]
        rfl
      · rfl
    | some state =>
      have hstate : circuitOf states o = state.circuit := by rw [circuitOf, hlookup]; rfl
      rw [hstate]
      by_cases hclosed : state.openUntilMs = 0
      · simp only [hclosed, if_true, Circuit.step, OriginState.circuit]
        split
        · rename_i heq
          rw [heq, hstate, OriginState.circuit, if_pos hclosed]
        · rfl
      · by_cases hlt : (first.ms : ℚ) < state.openUntilMs
        · simp only [hclosed, if_false, hlt, if_true, Circuit.step, OriginState.circuit]
          split
          · rename_i heq
            rw [heq, hstate, OriginState.circuit, if_neg hclosed]
          · rfl
        · simp only [hclosed, if_false, hlt, Circuit.step, OriginState.circuit]
          rw [circuitOf_assign (by rw [hlookup]; rfl)]
          split
          · rw [OriginState.circuit, if_neg openUntilMs_ne_zero]
          · rfl
  | recordSuccess uri =>
    have horigin : originOf uri = some o := horigin
    simp only [afterCall, createStatusEndpointBreaker, horigin, BreakerCall.event]
    rw [circuitOf_assign_touch hroom ho]
    rfl
  | recordFailure uri time =>
    have horigin : originOf uri = some o := horigin
    simp only [afterCall, createStatusEndpointBreaker, horigin, BreakerCall.event]
    rw [circuitOf_assign_touch hroom ho, LruMap.touch_fst, ← circuit_touched states o]
    refine if_congr Iff.rfl ?_ rfl
    generalize (states.lookup o).getD ⟨0, 0⟩ = state
    by_cases hreached : options.limits.failureThreshold ≤ state.consecutiveFailures + 1
    · simp [Circuit.step, OriginState.circuit, hreached, openUntilMs_ne_zero]
    · simp [Circuit.step, OriginState.circuit, hreached]

theorem circuitOf_foldl (hroom : LruMap.Room options.limits.maxTrackedOrigins ks states)
    (hcalls : ∀ c ∈ calls, ∀ o, originOf c.uri = some o → o ∈ ks) :
    circuitOf (calls.foldl (afterCall (createStatusEndpointBreaker originOf options)) states) o =
      Circuit.after options.limits.failureThreshold options.limits.openDurationMs
        (circuitOf states o) (calls.filterMap (eventFor originOf o)) := by
  induction calls generalizing states with
  | nil => rfl
  | cons c calls ih =>
    have hrest : ∀ c ∈ calls, ∀ o, originOf c.uri = some o → o ∈ ks :=
      fun d hd ↦ hcalls d (List.mem_cons_of_mem _ hd)
    rw [List.foldl_cons, List.filterMap_cons]
    cases horigin : originOf c.uri with
    | none =>
      rw [afterCall_of_none horigin, ih hroom hrest, eventFor, horigin, if_neg nofun]
    | some o₁ =>
      have ho₁ : o₁ ∈ ks := hcalls c List.mem_cons_self o₁ horigin
      rw [ih (room_afterCall hroom horigin ho₁) hrest, circuitOf_afterCall hroom horigin ho₁,
        eventFor, horigin]
      by_cases heq : o = o₁
      · rw [if_pos heq, if_pos (by rw [heq]), heq]
        rfl
      · rw [if_neg heq, if_neg fun h ↦ heq (Option.some.inj h).symm]

theorem circuitOf_statesAfter
    (hfew : (origins originOf calls).card ≤ options.limits.maxTrackedOrigins) :
    circuitOf (statesAfter (createStatusEndpointBreaker originOf options) calls) o =
      Circuit.after options.limits.failureThreshold options.limits.openDurationMs
        Circuit.fresh (calls.filterMap (eventFor originOf o)) := by
  refine circuitOf_foldl (LruMap.Room.nil hfew) ?_
  intro c hc o ho
  exact List.mem_toFinset.mpr (List.mem_filterMap.mpr ⟨c, hc, ho⟩)

/-! ### The law of the answers -/

variable (originOf options o) in
/-- After the calls `pre`, `call` opens the circuit of `o` for a window from `time` on: it is the
failure that reaches the threshold, or a later one, or a request admitted at an open circuit. -/
inductive Opens : List BreakerCall → BreakerCall → Instant → Prop
  | failure {pre : List BreakerCall} {uri : String} {time : Instant}
      (origin : originOf uri = some o)
      (reached : options.limits.failureThreshold ≤
        failuresInARow originOf o (pre ++ [.recordFailure uri time])) :
      Opens pre (.recordFailure uri time) time
  | probe {pre : List BreakerCall} {uri : String} {first second : Instant}
      (origin : originOf uri = some o)
      (reached : options.limits.failureThreshold ≤ failuresInARow originOf o pre)
      (admitted : admits (createStatusEndpointBreaker originOf options) pre uri first second) :
      Opens pre (.allows uri first second) second

/-- A call that records a success of `o`. -/
def RecordsSuccess (originOf : String → Option String) (o : String) : BreakerCall → Prop
  | .recordSuccess uri => originOf uri = some o
  | _ => False

/-- A call that records an outcome for `o`. -/
def RecordsOutcome (originOf : String → Option String) (o : String) : BreakerCall → Prop
  | .recordSuccess uri => originOf uri = some o
  | .recordFailure uri _ => originOf uri = some o
  | .allows _ _ _ => False

theorem origins_subset (h : ∀ c ∈ pre, c ∈ calls) :
    origins originOf pre ⊆ origins originOf calls := by
  intro o ho
  obtain ⟨c, hc, hco⟩ := List.mem_filterMap.mp (List.mem_toFinset.mp ho)
  exact List.mem_toFinset.mpr (List.mem_filterMap.mpr ⟨c, h c hc, hco⟩)

theorem admits_iff (hfew : (origins originOf pre).card ≤ options.limits.maxTrackedOrigins)
    (horigin : originOf uri = some o) :
    admits (createStatusEndpointBreaker originOf options) pre uri first second = true ↔
      (circuitStep options (Circuit.after options.limits.failureThreshold
        options.limits.openDurationMs Circuit.fresh (pre.filterMap (eventFor originOf o)))
        (.ask first.ms second.ms)).1 = some true := by
  rw [admits, allows_eq_step horigin, circuitOf_statesAfter hfew]

/-- A call that opens the circuit leaves it refusing until a window later. -/
theorem Opens.holds (h : Opens originOf options o pre call time)
    (hfew : (origins originOf pre).card ≤ options.limits.maxTrackedOrigins) :
    (Circuit.after options.limits.failureThreshold options.limits.openDurationMs Circuit.fresh
      ((pre ++ [call]).filterMap (eventFor originOf o))).Holds
      (time.ms + options.limits.openDurationMs) := by
  cases h with
  | @failure uri _ origin reached =>
    have hevent : eventFor originOf o (.recordFailure uri time) = some (.failure time.ms) :=
      if_pos origin
    rw [failuresInARow] at reached
    rw [List.filterMap_append, List.filterMap_cons, hevent, List.filterMap_nil] at reached ⊢
    rw [Circuit.failuresInARow, List.foldl_append] at reached
    rw [Circuit.after_append, Circuit.after_cons]
    refine ⟨_, ?_, le_rfl⟩
    change (if _ ≤ (Circuit.after _ _ _ _).failures + 1 then _ else _) = _
    rw [Circuit.failures_after]
    exact if_pos reached
  | @probe uri first _ origin reached admitted =>
    have hevent : eventFor originOf o (.allows uri first time) = some (.ask first.ms time.ms) :=
      if_pos origin
    rw [List.filterMap_append, List.filterMap_cons, hevent, List.filterMap_nil,
      Circuit.after_append, Circuit.after_cons]
    refine ⟨_, Circuit.holds_of_admitted ?_ ((admits_iff hfew origin).mp admitted), le_rfl⟩
    exact (Circuit.isSome_openUntil_iff options.limits.threshold_pos).mpr reached

theorem RecordsSuccess.iff_event (h : originOf call.uri = some o) :
    RecordsSuccess originOf o call ↔ call.event = .success := by
  cases call with
  | allows uri first second => simp [RecordsSuccess, BreakerCall.event]
  | recordSuccess uri =>
    have horigin : originOf uri = some o := h
    simp [RecordsSuccess, BreakerCall.event, horigin]
  | recordFailure uri time => simp [RecordsSuccess, BreakerCall.event]

theorem mem_filterMap_eventFor {e : Circuit.Event ℚ}
    (h : e ∈ calls.filterMap (eventFor originOf o)) :
    ∃ c ∈ calls, originOf c.uri = some o ∧ e = c.event := by
  obtain ⟨c, hc, hce⟩ := List.mem_filterMap.mp h
  obtain ⟨horigin, he⟩ := Option.ite_none_right_eq_some.mp hce
  exact ⟨c, hc, horigin, (Option.some.inj he).symm⟩

theorem readings_event {r : ℚ} (h : r ∈ call.event.readings) :
    ∃ n ∈ call.readings, r = (n : ℚ) := by
  cases call with
  | allows uri first second =>
    rw [BreakerCall.event, Circuit.Event.readings, List.mem_cons, List.mem_singleton] at h
    obtain rfl | rfl := h
    · exact ⟨first.ms, by simp [BreakerCall.readings], rfl⟩
    · exact ⟨second.ms, by simp [BreakerCall.readings], rfl⟩
  | recordSuccess uri => exact absurd h List.not_mem_nil
  | recordFailure uri time =>
    rw [BreakerCall.event, Circuit.Event.readings, List.mem_singleton] at h
    exact ⟨time.ms, by simp [BreakerCall.readings], h⟩

/-- The reading from which a window is counted is one the call carries. -/
theorem Opens.mem_readings (h : Opens originOf options o pre call time) :
    time.ms ∈ call.readings := by
  cases h with
  | failure => simp [BreakerCall.readings]
  | probe => simp [BreakerCall.readings]

/-- Once a call opened the circuit, and until a success, a request that is admitted comes no
earlier than a window later. -/
theorem Opens.le_of_admits (hopens : Opens originOf options o pre call time)
    (hordered : InOrder (pre ++ call :: mid))
    (hfew : (origins originOf (pre ++ call :: mid)).card ≤ options.limits.maxTrackedOrigins)
    (horigin : originOf uri = some o) (hsuccess : ∀ c ∈ mid, ¬ RecordsSuccess originOf o c)
    (hadmits : admits (createStatusEndpointBreaker originOf options) (pre ++ call :: mid) uri first
      second) :
    time.ms + options.limits.openDurationMs ≤ first.ms := by
  have hpre : (origins originOf pre).card ≤ options.limits.maxTrackedOrigins :=
    (Finset.card_le_card (origins_subset fun c hc ↦ List.mem_append_left _ hc)).trans hfew
  have hlater : ∀ c ∈ mid, ∀ n ∈ c.readings, time.ms ≤ n := by
    intro c hc n hn
    rw [InOrder, List.flatMap_append, List.pairwise_append, List.flatMap_cons,
      List.pairwise_append] at hordered
    exact hordered.2.1.2.2 time.ms hopens.mem_readings n (List.mem_flatMap.mpr ⟨c, hc, hn⟩)
  have hheld : (Circuit.after options.limits.failureThreshold options.limits.openDurationMs
      Circuit.fresh ((pre ++ call :: mid).filterMap (eventFor originOf o))).Holds
      (time.ms + options.limits.openDurationMs) := by
    rw [← List.singleton_append, ← List.append_assoc, List.filterMap_append, Circuit.after_append]
    refine (hopens.holds hpre).after ?_ ?_
    · rintro e he r hr
      obtain ⟨c, hc, -, rfl⟩ := mem_filterMap_eventFor he
      obtain ⟨n, hn, rfl⟩ := readings_event hr
      exact_mod_cast hlater c hc n hn
    · rintro e he heq
      obtain ⟨c, hc, hco, rfl⟩ := mem_filterMap_eventFor he
      exact hsuccess c hc ((RecordsSuccess.iff_event hco).mpr heq)
  exact hheld.le_of_admitted ((admits_iff hfew horigin).mp hadmits)

/-- Without an outcome, and while every request of its origin is refused, a circuit stays as it
is. -/
theorem after_of_refused
    (hfew : (origins originOf (pre ++ mid)).card ≤ options.limits.maxTrackedOrigins)
    (hquiet : ∀ c ∈ mid, ¬ RecordsOutcome originOf o c)
    (hrefused : ∀ mid₁ uri first second mid₂, mid = mid₁ ++ .allows uri first second :: mid₂ →
      originOf uri = some o →
      admits (createStatusEndpointBreaker originOf options) (pre ++ mid₁) uri first second =
        false) :
    Circuit.after options.limits.failureThreshold options.limits.openDurationMs Circuit.fresh
        ((pre ++ mid).filterMap (eventFor originOf o)) =
      Circuit.after options.limits.failureThreshold options.limits.openDurationMs Circuit.fresh
        (pre.filterMap (eventFor originOf o)) := by
  induction mid using List.reverseRecOn with
  | nil => rw [List.append_nil]
  | append_singleton mid c ih =>
    have hsub : (origins originOf (pre ++ mid)).card ≤ options.limits.maxTrackedOrigins := by
      refine (Finset.card_le_card (origins_subset fun d hd ↦ ?_)).trans hfew
      rw [← List.append_assoc]
      exact List.mem_append_left _ hd
    have hih := ih hsub (fun d hd ↦ hquiet d (List.mem_append_left _ hd)) (by
      rintro mid₁ uri first second mid₂ rfl horigin
      exact hrefused mid₁ uri first second (mid₂ ++ [c]) (by simp) horigin)
    rw [← List.append_assoc, List.filterMap_append, Circuit.after_append, hih]
    by_cases horigin : originOf c.uri = some o
    · cases c with
      | allows uri first second =>
        have horigin : originOf uri = some o := horigin
        have hevent : eventFor originOf o (.allows uri first second) =
            some (.ask first.ms second.ms) := if_pos horigin
        have hno : admits (createStatusEndpointBreaker originOf options) (pre ++ mid) uri first
            second = false := hrefused mid uri first second [] rfl horigin
        rw [List.filterMap_cons, hevent, List.filterMap_nil, Circuit.after_cons]
        refine Circuit.step_of_refused fun hyes ↦ ?_
        rw [← hih, ← admits_iff hsub horigin, hno] at hyes
        exact absurd hyes Bool.false_ne_true
      | recordSuccess uri => exact (hquiet (.recordSuccess uri) (by simp) horigin).elim
      | recordFailure uri time => exact (hquiet (.recordFailure uri time) (by simp) horigin).elim
    · have hevent : eventFor originOf o c = none := if_neg horigin
      rw [List.filterMap_cons, hevent, List.filterMap_nil]
      rfl

/-- A window after a probe whose outcome is never recorded, the next request is admitted. -/
theorem admits_of_quiet {uri₀ : String} {first₀ second₀ : Instant}
    (hfew : (origins originOf (pre ++ .allows uri₀ first₀ second₀ :: mid)).card ≤
      options.limits.maxTrackedOrigins)
    (horigin₀ : originOf uri₀ = some o) (horigin : originOf uri = some o)
    (hprobe : admits (createStatusEndpointBreaker originOf options) pre uri₀ first₀ second₀)
    (hquiet : ∀ c ∈ mid, ¬ RecordsOutcome originOf o c)
    (hrefused : ∀ mid₁ uri first second mid₂, mid = mid₁ ++ .allows uri first second :: mid₂ →
      originOf uri = some o →
      admits (createStatusEndpointBreaker originOf options)
        (pre ++ .allows uri₀ first₀ second₀ :: mid₁) uri first second = false)
    (hlate : second₀.ms + options.limits.openDurationMs ≤ first.ms) :
    admits (createStatusEndpointBreaker originOf options)
      (pre ++ .allows uri₀ first₀ second₀ :: mid) uri first second := by
  have hpre : (origins originOf pre).card ≤ options.limits.maxTrackedOrigins :=
    (Finset.card_le_card (origins_subset fun c hc ↦ List.mem_append_left _ hc)).trans hfew
  have hevent : eventFor originOf o (.allows uri₀ first₀ second₀) =
      some (.ask first₀.ms second₀.ms) := if_pos horigin₀
  have hprobe := (admits_iff hpre horigin₀).mp hprobe
  rw [admits_iff hfew horigin]
  rw [← List.singleton_append, ← List.append_assoc] at hfew ⊢
  rw [after_of_refused hfew hquiet fun mid₁ uri first second mid₂ hmid ho ↦ by
    rw [List.append_assoc, List.singleton_append]
    exact hrefused mid₁ uri first second mid₂ hmid ho]
  rw [List.filterMap_append, List.filterMap_cons, hevent, List.filterMap_nil,
    Circuit.after_append, Circuit.after_cons]
  refine Circuit.admitted_of_le fun u hu ↦ ?_
  change (circuitStep options _ _).2.openUntil = some u at hu
  cases hopen : (Circuit.after options.limits.failureThreshold options.limits.openDurationMs
      Circuit.fresh (pre.filterMap (eventFor originOf o))).openUntil with
  | none =>
    rw [circuitStep, Circuit.step, hopen] at hu
    rw [hopen] at hu
    cases hu
  | some t =>
    rw [Circuit.holds_of_admitted (by rw [hopen]; rfl) hprobe] at hu
    exact Option.some.inj hu ▸ hlate

/-- The calls of other origins do not matter to an answer. -/
theorem admits_filter
    (hfew : (origins originOf pre).card ≤ options.limits.maxTrackedOrigins) :
    admits (createStatusEndpointBreaker originOf options)
        (pre.filter fun c ↦ originOf c.uri = originOf uri) uri first second =
      admits (createStatusEndpointBreaker originOf options) pre uri first second := by
  cases horigin : originOf uri with
  | none => simp only [admits, createStatusEndpointBreaker, horigin]
  | some o =>
    have hsub : (origins originOf (pre.filter fun c ↦ originOf c.uri = some o)).card ≤
        options.limits.maxTrackedOrigins :=
      (Finset.card_le_card (origins_subset fun c hc ↦ (List.mem_filter.mp hc).1)).trans hfew
    have hevents : (pre.filter fun c ↦ originOf c.uri = some o).filterMap (eventFor originOf o) =
        pre.filterMap (eventFor originOf o) := by
      rw [List.filterMap_filter]
      refine List.filterMap_congr fun c _ ↦ ?_
      by_cases hc : originOf c.uri = some o
      · simp [hc]
      · simp [hc, eventFor]
    rw [Bool.eq_iff_iff, admits_iff hsub horigin, admits_iff hfew horigin, hevents]

/-- Over calls that come one after the other, and about no more origins than are tracked: from the
failure that opens a circuit on, and until a success, no two requests are admitted within one
window, nor any within the window of a failure; a window after a probe whose outcome is never
recorded, the next request is admitted; and an answer depends on the calls of its own origin
alone. -/
theorem breaker_spaces_requests (hordered : InOrder calls)
    (hfew : (origins originOf calls).card ≤ options.limits.maxTrackedOrigins) :
    (∀ o pre call time mid uri first second post,
      calls = pre ++ call :: (mid ++ .allows uri first second :: post) →
      Opens originOf options o pre call time → originOf uri = some o →
      (∀ c ∈ mid, ¬ RecordsSuccess originOf o c) →
      admits (createStatusEndpointBreaker originOf options) (pre ++ call :: mid) uri first second →
      time.ms + options.limits.openDurationMs ≤ first.ms) ∧
    (∀ o pre uri₀ first₀ second₀ mid uri first second post,
      calls = pre ++ .allows uri₀ first₀ second₀ :: (mid ++ .allows uri first second :: post) →
      originOf uri₀ = some o → originOf uri = some o →
      admits (createStatusEndpointBreaker originOf options) pre uri₀ first₀ second₀ →
      (∀ c ∈ mid, ¬ RecordsOutcome originOf o c) →
      (∀ mid₁ uri first second mid₂, mid = mid₁ ++ .allows uri first second :: mid₂ →
        originOf uri = some o →
        admits (createStatusEndpointBreaker originOf options)
          (pre ++ .allows uri₀ first₀ second₀ :: mid₁) uri first second = false) →
      second₀.ms + options.limits.openDurationMs ≤ first.ms →
      admits (createStatusEndpointBreaker originOf options)
        (pre ++ .allows uri₀ first₀ second₀ :: mid) uri first second) ∧
    ∀ pre uri first second post, calls = pre ++ .allows uri first second :: post →
      admits (createStatusEndpointBreaker originOf options)
          (pre.filter fun c ↦ originOf c.uri = originOf uri) uri first second =
        admits (createStatusEndpointBreaker originOf options) pre uri first second := by
  have hpart {part : List BreakerCall} (h : ∀ c ∈ part, c ∈ calls) :
      (origins originOf part).card ≤ options.limits.maxTrackedOrigins :=
    (Finset.card_le_card (origins_subset h)).trans hfew
  refine ⟨?_, ?_, ?_⟩
  · rintro o pre call time mid uri first second post rfl hopens horigin hsuccess hadmits
    refine hopens.le_of_admits ?_ (hpart fun c hc ↦ ?_) horigin hsuccess hadmits
    · refine hordered.sublist (List.Sublist.flatMap ?_ _)
      exact (List.Sublist.append_left ((List.sublist_append_left mid _).cons_cons call) pre)
    · simp only [List.mem_append, List.mem_cons] at hc ⊢
      tauto
  · rintro o pre uri₀ first₀ second₀ mid uri first second post rfl horigin₀ horigin hprobe hquiet
      hrefused hlate
    refine admits_of_quiet (hpart fun c hc ↦ ?_) horigin₀ horigin hprobe hquiet hrefused hlate
    simp only [List.mem_append, List.mem_cons] at hc ⊢
    tauto
  · rintro pre uri first second post rfl
    exact admits_filter (hpart fun c hc ↦ List.mem_append_left _ hc)

end Law

namespace BreakerSample

/-- The origins of two status lists of one host. -/
def originOf (uri : String) : Option String :=
  if uri = "https://a.example/1" ∨ uri = "https://a.example/2" then some "https://a.example"
  else none

def options : StatusEndpointBreakerOptions := { failureThreshold := some 1 }

/-- The instant so many milliseconds on. -/
def instant (ms : ℕ) (h : ms ≤ 8640000000000000 := by decide) : Instant := ⟨ms, h⟩

/-- A failure, and a request once its window is over. -/
def calls : List BreakerCall :=
  [.recordFailure "https://a.example/1" (instant 5),
    .allows "https://a.example/2" (instant 30005) (instant 30005)]

end BreakerSample

open BreakerSample in
theorem breaker_spaces_requests_sample :
    admits (createStatusEndpointBreaker originOf options) (calls.take 1) "https://a.example/2"
        (instant 30005) (instant 30005) = true ∧
      ((5 : ℕ) : ℚ) + options.limits.openDurationMs ≤ (30005 : ℕ) := by
  have hadmits : admits (createStatusEndpointBreaker originOf options) (calls.take 1)
      "https://a.example/2" (instant 30005) (instant 30005) = true := by decide +kernel
  refine ⟨hadmits, ?_⟩
  exact (@breaker_spaces_requests originOf options calls
    (by simp [InOrder, calls, BreakerCall.readings, instant]) (by decide)).1
    "https://a.example" [] (.recordFailure "https://a.example/1" (instant 5)) (instant 5) []
    "https://a.example/2" (instant 30005) (instant 30005) [] rfl
    (.failure (by decide) (by decide)) (by decide) (by simp) hadmits

end QAuth.Federation
