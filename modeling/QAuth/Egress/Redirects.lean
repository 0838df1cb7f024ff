import QAuth.Egress.Request
import QAuth.Foundation.Guards

/-!
# What a call sends along its redirects

The trace of a call is a visit of hops: the addresses of a hop are looked up and checked, it is
sent, and its answer may lead to the next one, with the permit, the method, the headers and the body
that the redirect leaves it.
-/

namespace QAuth.Egress

/-- An event of the network. -/
abbrev NetEvent := Effect.Event net

def NetEvent.job? (e : NetEvent) : Option Exchange :=
  match e.call with
  | .exchange job => some job
  | _ => none

/-- The exchanges of a trace, in their order. -/
def sent (events : List NetEvent) : List Exchange := events.filterMap NetEvent.job?

@[simp] theorem sent_nil : sent [] = [] := rfl

@[simp] theorem sent_append (xs ys : List NetEvent) : sent (xs ++ ys) = sent xs ++ sent ys :=
  List.filterMap_append ..

@[simp] theorem sent_exchange (job : Exchange) (answer : ExchangeOutcome) (rest : List NetEvent) :
    sent (⟨.exchange job, answer⟩ :: rest) = job :: sent rest :=
  rfl

/-! ### Visits -/

/-- The addresses of a hop were found, and each may be dialled. -/
inductive Lookup (hop : Hop) (before : List NetEvent) : List LookupAddress → Prop
  | literal (h : hop.target.literalFamily ≠ 0) :
      Lookup hop before [⟨hop.target.hostname, hop.target.literalFamily⟩]
  | resolved {addresses : List LookupAddress} {timeoutMs : ℤ} (h : hop.target.literalFamily = 0)
      (hasked : ⟨.resolveHost hop.target.hostname timeoutMs, .addresses addresses⟩ ∈ before)
      (hall : ∀ a ∈ addresses, dialable hop.target.hostname a.address hop.permit = true) :
      Lookup hop before addresses

theorem Lookup.mono {hop : Hop} {before before' : List NetEvent} {addresses : List LookupAddress}
    (h : Lookup hop before addresses) (hsub : before ⊆ before') : Lookup hop before' addresses := by
  cases h with
  | literal h => exact .literal h
  | resolved h hasked hall => exact .resolved h (hsub hasked) hall

/-- An answer leads from one hop to the next. -/
inductive Redirects (call : CallScope) (hop : Hop) : ExchangeOutcome → Hop → Prop
  | mk {status : ℕ} {headers : Headers} {body : List UInt8} {location : JsString} {next : Url}
      {target : CheckedUrl} (hparse : call.parser location (some hop.target.url.href) = some next)
      (hcheck : checkUrl call.parser (.url next) (call.permitOf next) = .ok target) :
      Redirects call hop (.response status headers body (some location))
        (hop.next target (call.permitOf next) status)

/-- What a hop leaves in the trace, with so many redirects left. -/
inductive Visits (call : CallScope) : ℕ → Hop → List NetEvent → Prop
  | unsent {left : ℕ} {hop : Hop} {events : List NetEvent} (hsent : sent events = []) :
      Visits call left hop events
  | last {left : ℕ} {hop : Hop} {events : List NetEvent} {addresses : List LookupAddress}
      {answer : ExchangeOutcome} (hsent : sent events = [])
      (hlookup : Lookup hop events addresses) :
      Visits call left hop (events ++ [⟨.exchange (hop.exchange call.limits addresses), answer⟩])
  | next {left : ℕ} {hop hop' : Hop} {events rest : List NetEvent} {addresses : List LookupAddress}
      {answer : ExchangeOutcome} (hsent : sent events = []) (hlookup : Lookup hop events addresses)
      (hredirects : Redirects call hop answer hop') (hrest : Visits call left hop' rest) :
      Visits call (left + 1) hop
        (events ++ ⟨.exchange (hop.exchange call.limits addresses), answer⟩ :: rest)

/-! ### The trace of the loop -/

section Trace

variable {env : Effect.Environment net} {m : Effect.Memory net (Option JsString)}

theorem wp_dateNow {post : Except Thrown ℤ → Effect.Memory net (Option JsString) → Prop}
    (h : ∀ n : ℤ, post (.ok n) { m with trace := m.trace ++ [⟨.now, n⟩] }) :
    Effect.wp env dateNow post m :=
  h _

theorem wp_signalAborted {post : Except Thrown Bool → Effect.Memory net (Option JsString) → Prop}
    (h : ∀ late : Bool, post (.ok late) { m with trace := m.trace ++ [⟨.aborted, late⟩] }) :
    Effect.wp env signalAborted post m :=
  h _

theorem wp_resolveHost {hostname : JsString} {timeoutMs : ℤ}
    {post : Except Thrown Resolution → Effect.Memory net (Option JsString) → Prop}
    (h : ∀ answer : Resolution, post (.ok answer)
      { m with trace := m.trace ++ [⟨.resolveHost hostname timeoutMs, answer⟩] }) :
    Effect.wp env (resolveHost hostname timeoutMs) post m :=
  h _

theorem wp_runExchange {job : Exchange}
    {post : Except Thrown ExchangeOutcome → Effect.Memory net (Option JsString) → Prop}
    (h : ∀ answer : ExchangeOutcome, post (.ok answer)
      { m with trace := m.trace ++ [⟨.exchange job, answer⟩] }) :
    Effect.wp env (runExchange job) post m :=
  h _

/-- A part of the call leaves these events behind it. -/
def Leaves {α : Type} (m : Effect.Memory net (Option JsString))
    (Q : Except Thrown α → List NetEvent → Prop) (r : Except Thrown α)
    (m' : Effect.Memory net (Option JsString)) : Prop :=
  ∃ events, m'.trace = m.trace ++ events ∧ Q r events

/-- What was looked up, without anything sent. -/
def LooksUp (hop : Hop) (r : Except Thrown (List LookupAddress)) (events : List NetEvent) : Prop :=
  sent events = [] ∧ ∀ addresses, r = .ok addresses → Lookup hop events addresses

theorem resolveCheckedAddresses_looksUp (hop : Hop) (timeoutMs : ℤ) :
    Effect.wp env (resolveCheckedAddresses hop.target timeoutMs hop.permit)
      (Leaves m (LooksUp hop)) m := by
  rw [resolveCheckedAddresses]
  split_ifs with hliteral
  · refine ⟨[], (List.append_nil _).symm, rfl, fun addresses heq ↦ ?_⟩
    obtain rfl := Except.ok.inj heq
    exact .literal hliteral
  rw [Effect.wp_bind]
  refine wp_resolveHost fun answer ↦ ?_
  rw [Effect.andThen_ok]
  have hstop : ∀ f : EgressFailure, ∀ answer : Resolution,
      Leaves m (LooksUp hop) (.error (.failure f))
        { m with trace := m.trace ++ [⟨.resolveHost hop.target.hostname timeoutMs, answer⟩] } :=
    fun f answer ↦ ⟨_, rfl, rfl, fun addresses heq ↦ absurd heq (by simp)⟩
  match answer with
  | .failure f => exact hstop _ _
  | .rejected code => exact hstop _ _
  | .addresses addresses =>
    dsimp only
    split_ifs with hnone
    · exact hstop _ _
    · cases hfind : addresses.find? fun a ↦ !dialable hop.target.hostname a.address hop.permit with
      | some a => exact hstop _ _
      | none =>
        refine ⟨_, rfl, rfl, fun addresses' heq ↦ ?_⟩
        obtain rfl := Except.ok.inj heq
        refine .resolved (not_not.mp hliteral) (List.mem_singleton_self _) fun a ha ↦ ?_
        simpa using List.find?_eq_none.mp hfind a ha

theorem withinDeadline_looksUp {hop : Hop} {work : EgressM (List LookupAddress)}
    (h : Effect.wp env work (Leaves m (LooksUp hop)) m) (host : JsString) :
    Effect.wp env (withinDeadline work host) (Leaves m (LooksUp hop)) m := by
  rw [withinDeadline, Effect.wp_bind, Effect.wp_attempt]
  refine Effect.wp_mono h ?_
  rintro r m' ⟨events, htrace, hsent, hlookup⟩
  have hafter : ∀ r' : Except Thrown (List LookupAddress), (∀ a, r' = .ok a → r = .ok a) →
      ∀ late : Bool, Leaves m (LooksUp hop) r'
        { m' with trace := m'.trace ++ [⟨.aborted, late⟩] } := by
    intro r' hr' late
    refine ⟨events ++ [⟨.aborted, late⟩], by rw [htrace, List.append_assoc], ?_,
      fun addresses heq ↦ ?_⟩
    · rw [sent_append, hsent]
      rfl
    · exact (hlookup addresses (hr' addresses heq)).mono (List.subset_append_left _ _)
  have hjoin : Effect.andThen env (fun result ↦ do
      if ← signalAborted then
        fail .timeout .failed (units "egress to " ++ host ++ units " failed: the call timed out")
      else Effect.ofExcept result) (Leaves m (LooksUp hop)) (.ok r) m' := by
    rw [Effect.andThen_ok, Effect.wp_bind]
    refine wp_signalAborted fun late ↦ ?_
    rw [Effect.andThen_ok]
    match late with
    | true => exact hafter (.error _) (fun a heq ↦ absurd heq (by simp)) _
    | false => exact Effect.wp_ofExcept.mpr (hafter r (fun a heq ↦ heq) _)
  match r with
  | .ok a => exact hjoin
  | .error e => exact hjoin

/-- A hop was sent after its addresses were looked up, or was not sent. -/
def Sends (call : CallScope) (hop : Hop) (r : Except Thrown ExchangeOutcome)
    (events : List NetEvent) : Prop :=
  match r with
  | .error _ => sent events = []
  | .ok answer => ∃ before addresses, sent before = [] ∧ Lookup hop before addresses ∧
      events = before ++ [⟨.exchange (hop.exchange call.limits addresses), answer⟩]

theorem sendHop_sends (call : CallScope) (hop : Hop) :
    Effect.wp env (sendHop call hop) (Leaves m (Sends call hop)) m := by
  rw [sendHop, Effect.wp_bind, Effect.wp_update, Effect.andThen_ok, Effect.wp_bind]
  refine wp_dateNow fun now ↦ ?_
  rw [Effect.andThen_ok, Effect.wp_bind]
  refine Effect.wp_mono (withinDeadline_looksUp (resolveCheckedAddresses_looksUp hop _) _) ?_
  rintro (e | addresses) m' ⟨events, htrace, hsent, hlookup⟩
  · refine ⟨⟨.now, now⟩ :: events, ?_, hsent⟩
    rw [htrace, List.append_assoc]
    rfl
  · rw [Effect.andThen_ok]
    refine wp_runExchange fun answer ↦ ⟨⟨.now, now⟩ :: events ++
      [⟨.exchange (hop.exchange call.limits addresses), answer⟩], ?_,
      ⟨.now, now⟩ :: events, addresses, hsent,
      (hlookup addresses rfl).mono (List.subset_cons_self _ _), rfl⟩
    rw [htrace, List.append_assoc, List.append_assoc]
    rfl

theorem follow_visits (call : CallScope) (left : ℕ) (hop : Hop) :
    Effect.wp env (follow call left hop) (Leaves m fun _ ↦ Visits call left hop) m := by
  induction left generalizing hop m with
  | zero =>
    rw [follow, Effect.wp_bind]
    refine Effect.wp_mono (sendHop_sends call hop) ?_
    rintro (e | answer) m' ⟨events, htrace, hsends⟩
    · exact ⟨events, htrace, .unsent hsends⟩
    · obtain ⟨before, addresses, hsent, hlookup, rfl⟩ := hsends
      have hlast : ∃ events, m'.trace = m.trace ++ events ∧ Visits call 0 hop events :=
        ⟨_, htrace, .last hsent hlookup⟩
      match answer with
      | .failed .. => exact hlast
      | .response _ _ _ none => exact hlast
      | .response _ _ _ (some _) => exact hlast
  | succ left ih =>
    rw [follow, Effect.wp_bind]
    refine Effect.wp_mono (sendHop_sends call hop) ?_
    rintro (e | answer) m' ⟨events, htrace, hsends⟩
    · exact ⟨events, htrace, .unsent hsends⟩
    · obtain ⟨before, addresses, hsent, hlookup, rfl⟩ := hsends
      have hlast : ∃ events, m'.trace = m.trace ++ events ∧ Visits call (left + 1) hop events :=
        ⟨_, htrace, .last hsent hlookup⟩
      match answer with
      | .failed .. => exact hlast
      | .response _ _ _ none => exact hlast
      | .response status headers body (some location) =>
        have hredirects : ∀ {next : Url} {target : CheckedUrl},
            call.parser location (some hop.target.url.href) = some next →
              checkUrl call.parser (.url next) (call.permitOf next) = .ok target →
                Redirects call hop (.response status headers body (some location))
                  (hop.next target (call.permitOf next) status) := .mk
        rw [Effect.andThen_ok]
        dsimp only
        cases hparse : call.parser location (some hop.target.url.href) with
        | none => exact hlast
        | some next =>
          dsimp only
          rw [Effect.wp_bind, Effect.wp_update, Effect.andThen_ok, Effect.wp_bind]
          cases hcheck : checkUrl call.parser (.url next) (call.permitOf next) with
          | error f => exact hlast
          | ok target =>
            -- the rest of the trace is a visit of the next hop
            rw [check, Effect.wp_pure, Effect.andThen_ok]
            refine Effect.wp_mono (ih (hop.next target (call.permitOf next) status)) ?_
            rintro r m'' ⟨rest, htrace', hvisits⟩
            refine ⟨_, ?_, .next hsent hlookup (hredirects hparse hcheck) hvisits⟩
            rw [htrace']
            show m'.trace ++ rest = _
            rw [htrace, List.append_assoc, List.append_assoc]
            rfl

/-- What stays the same along the redirects of a call. -/
def scopeOf (client : EgressClient) (checked : CheckedCall) (first : CheckedUrl) (startedAt : ℤ) :
    CallScope :=
  ⟨client.parser, checked.limits, client.basePermit,
    callPermit client checked.source checked.realm, first.hostname, startedAt⟩

def firstHop (client : EgressClient) (call : EgressRequest) (checked : CheckedCall)
    (first : CheckedUrl) : Hop :=
  ⟨first, callPermit client checked.source checked.realm, checked.method, checked.headers,
    call.body.map RequestBody.toBytes⟩

def Called (client : EgressClient) (call : EgressRequest) (events : List NetEvent) : Prop :=
  sent events = [] ∨ ∃ checked first startedAt rest, checkCall client call = .ok checked ∧
    checkUrl client.parser call.url (callPermit client checked.source checked.realm) = .ok first ∧
      events = ⟨.now, startedAt⟩ :: rest ∧
        Visits (scopeOf client checked first startedAt) checked.limits.maxRedirects
          (firstHop client call checked first) rest

theorem request_called (client : EgressClient) (call : EgressRequest) :
    Effect.wp env (request client call) (Leaves m fun _ ↦ Called client call) m := by
  have hnone : ∃ events, m.trace = m.trace ++ events ∧ Called client call events :=
    ⟨[], (List.append_nil _).symm, .inl rfl⟩
  rw [request, Effect.wp_bind, Effect.wp_ofExcept]
  cases hchecked : checkCall client call with
  | error e => exact hnone
  | ok checked =>
    rw [Effect.andThen_ok, Effect.wp_bind, Effect.wp_update, Effect.andThen_ok, Effect.wp_bind,
      Effect.wp_attempt]
    have hcall : Effect.wp env (attemptCall client call checked)
        (Leaves m fun _ ↦ Called client call)
        { m with state := hostForLog client.parser call.url } := by
      rw [attemptCall, Effect.wp_bind, Effect.wp_read, Effect.andThen_ok]
      split_ifs
      · exact hnone
      · rw [Effect.wp_bind]
        refine wp_dateNow fun startedAt ↦ ?_
        rw [Effect.andThen_ok, Effect.wp_bind]
        cases hfirst : checkUrl client.parser call.url
            (callPermit client checked.source checked.realm) with
        | error f => exact ⟨[⟨.now, startedAt⟩], rfl, .inl rfl⟩
        | ok first =>
          rw [check, Effect.wp_pure, Effect.andThen_ok]
          refine Effect.wp_mono (follow_visits (scopeOf client checked first startedAt)
            checked.limits.maxRedirects (firstHop client call checked first)) ?_
          rintro r m' ⟨rest, htrace, hvisits⟩
          refine ⟨⟨.now, startedAt⟩ :: rest, ?_,
            .inr ⟨checked, first, startedAt, rest, hchecked, hfirst, rfl, hvisits⟩⟩
          rw [htrace, List.append_assoc]
          rfl
    refine Effect.wp_mono hcall ?_
    rintro (e | response) m' hleaves
    · cases e with
      | failure f => exact hleaves
      | typeError _ | invalidHeader _ | error _ => exact hleaves
    · exact hleaves

/-- The trace of a call that is made now. -/
def callTrace (client : EgressClient) (call : EgressRequest) (env : Effect.Environment net) :
    List NetEvent :=
  (request client call env ⟨none, []⟩).2.trace

theorem callTrace_called (client : EgressClient) (call : EgressRequest)
    (env : Effect.Environment net) : Called client call (callTrace client call env) := by
  have hleaves : Effect.wp env (request client call) _ ⟨none, []⟩ := request_called client call
  obtain ⟨events, htrace, hcalled⟩ := hleaves
  rw [callTrace, htrace, List.nil_append]
  exact hcalled

end Trace

/-! ### What a hop carries -/

theorem names_without {headers : Headers} {names : List String} {name : String}
    (h : name ∈ names) : units name ∉ (headers.without names).names := by
  intro hmem
  obtain ⟨e, he, heq⟩ := List.mem_map.mp hmem
  have hnot := (List.mem_filter.mp he).2
  rw [decide_eq_true_eq, heq] at hnot
  exact hnot (List.mem_map_of_mem h)

theorem entries_without (headers : Headers) (names : List String) :
    (headers.without names).entries ⊆ headers.entries :=
  List.filter_subset_self ..

/-- What a later hop of a call still carries of an earlier one. -/
structure Reduced (job job' : Exchange) : Prop where
  headers : job'.headers.entries ⊆ job.headers.entries
  credentials : ∀ name ∈ CREDENTIAL_HEADERS, units name ∈ job'.headers.names →
    job'.hostname = job.hostname ∧ job'.port = job.port
  get : job.method = .get → job'.method = .get
  body : job.body = none → job'.body = none
  turned : job'.method ≠ job.method → job'.method = .get ∧ job'.body = none ∧
    ∀ name ∈ BODY_HEADERS, units name ∉ job'.headers.names

theorem Reduced.names {job job' : Exchange} (h : Reduced job job') :
    job'.headers.names ⊆ job.headers.names :=
  List.map_subset _ h.headers

theorem Reduced.same (hop : Hop) (limits : EgressLimits)
    (addresses addresses' : List LookupAddress) :
    Reduced (hop.exchange limits addresses) (hop.exchange limits addresses') :=
  ⟨fun _ h ↦ h, fun _ _ _ ↦ ⟨rfl, rfl⟩, id, id, fun h ↦ absurd rfl h⟩

theorem Reduced.trans {job job' job'' : Exchange} (h : Reduced job job') (h' : Reduced job' job'') :
    Reduced job job'' where
  headers := fun e he ↦ h.headers (h'.headers he)
  credentials := by
    intro name hname hmem
    obtain ⟨hhost, hport⟩ := h.credentials name hname (h'.names hmem)
    obtain ⟨hhost', hport'⟩ := h'.credentials name hname hmem
    exact ⟨hhost'.trans hhost, hport'.trans hport⟩
  get := fun hget ↦ h'.get (h.get hget)
  body := fun hbody ↦ h'.body (h.body hbody)
  turned := by
    intro hturned
    by_cases hsame : job''.method = job'.method
    · obtain ⟨hget, hbody, hnames⟩ := h.turned (hsame ▸ hturned)
      exact ⟨h'.get hget, h'.body hbody, fun name hname hmem ↦ hnames name hname (h'.names hmem)⟩
    · exact h'.turned hsame

/-- The next hop carries less than the one that led to it. -/
theorem reduced_next (hop : Hop) (target : CheckedUrl) (permit : Option AddressPermit) (status : ℕ)
    (limits : EgressLimits) (addresses addresses' : List LookupAddress) :
    Reduced (hop.exchange limits addresses)
      ((hop.next target permit status).exchange limits addresses') := by
  have hheaders : (if sameOrigin hop.target target then hop.headers
      else hop.headers.without CREDENTIAL_HEADERS).entries ⊆ hop.headers.entries := by
    split_ifs
    · exact fun _ h ↦ h
    · exact entries_without _ _
  have hcredentials : ∀ name ∈ CREDENTIAL_HEADERS, units name ∈
      (if sameOrigin hop.target target then hop.headers
        else hop.headers.without CREDENTIAL_HEADERS).names →
      target.hostname = hop.target.hostname ∧ target.port = hop.target.port := by
    intro name hname hmem
    split_ifs at hmem with hsame
    · rw [sameOrigin, Bool.and_eq_true, decide_eq_true_eq, decide_eq_true_eq] at hsame
      exact ⟨hsame.1.symm, hsame.2.symm⟩
    · exact absurd hmem (names_without hname)
  rw [Hop.next]
  by_cases hturns : turnsIntoGet status hop.method = true
  · simp only [if_pos hturns]
    refine ⟨fun e he ↦ hheaders (entries_without _ _ he), fun name hname hmem ↦ ?_, fun _ ↦ rfl,
      fun _ ↦ rfl, fun _ ↦ ⟨rfl, rfl, fun name hname ↦ names_without hname⟩⟩
    exact hcredentials name hname (List.map_subset _ (entries_without _ _) hmem)
  · simp only [if_neg hturns]
    exact ⟨hheaders, hcredentials, id, id, fun h ↦ absurd rfl h⟩

theorem Redirects.reduced {call : CallScope} {hop hop' : Hop} {answer : ExchangeOutcome}
    (h : Redirects call hop answer hop') (addresses addresses' : List LookupAddress) :
    Reduced (hop.exchange call.limits addresses) (hop'.exchange call.limits addresses') := by
  cases h with
  | mk => exact reduced_next ..

/-! ### Along a visit -/

section Along

variable {call : CallScope} {left : ℕ} {hop : Hop} {events : List NetEvent}

/-- Along a visit each hop carries less than those before it. -/
theorem Visits.reduced (h : Visits call left hop events) :
    (∀ job ∈ sent events, Reduced (hop.exchange call.limits []) job) ∧
      (sent events).Pairwise Reduced := by
  induction h with
  | unsent hsent => simp [hsent]
  | last hsent hlookup =>
    simp only [sent_append, hsent, List.nil_append, sent_exchange, sent_nil, List.mem_singleton,
      forall_eq, List.pairwise_singleton, and_true]
    exact .same ..
  | @next left hop hop' events rest addresses answer hsent hlookup hredirects hrest ih =>
    obtain ⟨hfirst, hpairwise⟩ := ih
    have hlater : ∀ addresses, ∀ job ∈ sent rest,
        Reduced (hop.exchange call.limits addresses) job :=
      fun addresses job hjob ↦ (hredirects.reduced addresses []).trans (hfirst job hjob)
    simp only [sent_append, hsent, List.nil_append, sent_exchange, List.forall_mem_cons,
      List.pairwise_cons]
    exact ⟨⟨.same .., hlater []⟩, hlater addresses, hpairwise⟩

theorem Visits.length_le (h : Visits call left hop events) : (sent events).length ≤ left + 1 := by
  induction h with
  | unsent hsent => simp [hsent]
  | last hsent hlookup => simp [hsent]
  | next hsent hlookup hredirects hrest ih => simpa [hsent] using ih

/-- A hop stands behind every exchange, and what it was sent to was looked up before. -/
def SentFrom (limits : EgressLimits) (Q : Hop → Prop) (before : List NetEvent) (e : NetEvent) :
    Prop :=
  ∀ job, e.job? = some job → ∃ hop addresses, Q hop ∧ Lookup hop before addresses ∧
    job = hop.exchange limits addresses

theorem eachAfter_of_not_sent {limits : EgressLimits} {Q : Hop → Prop} {before : List NetEvent}
    (h : sent events = []) : Effect.EachAfter (SentFrom limits Q) before events := by
  induction events generalizing before with
  | nil => trivial
  | cons e events ih =>
    rw [sent, List.filterMap_eq_nil_iff] at h
    refine ⟨fun job hjob ↦ ?_, ih ?_⟩
    · rw [h e (List.mem_cons_self ..)] at hjob
      exact absurd hjob (Option.some_ne_none _).symm
    · rw [sent, List.filterMap_eq_nil_iff]
      exact fun e' he' ↦ h e' (List.mem_cons_of_mem _ he')

/-- What redirects keep of the hops holds of the hop behind every exchange. -/
theorem Visits.sentFrom {Q : Hop → Prop}
    (hstep : ∀ hop answer hop', Redirects call hop answer hop' → Q hop → Q hop')
    (h : Visits call left hop events) (hhop : Q hop) (before : List NetEvent) :
    Effect.EachAfter (SentFrom call.limits Q) before events := by
  have hsend : ∀ {hop : Hop} {before events : List NetEvent} {addresses : List LookupAddress}
      {answer : ExchangeOutcome}, Q hop → Lookup hop events addresses →
      SentFrom call.limits Q (before ++ events)
        ⟨.exchange (hop.exchange call.limits addresses), answer⟩ := by
    intro hop before events addresses answer hhop hlookup job hjob
    obtain rfl := Option.some.inj hjob
    exact ⟨hop, addresses, hhop, hlookup.mono (List.subset_append_right _ _), rfl⟩
  induction h generalizing before with
  | unsent hsent => exact eachAfter_of_not_sent hsent
  | last hsent hlookup =>
    rw [Effect.eachAfter_append]
    exact ⟨eachAfter_of_not_sent hsent, hsend hhop hlookup, trivial⟩
  | next hsent hlookup hredirects hrest ih =>
    rw [Effect.eachAfter_append]
    exact ⟨eachAfter_of_not_sent hsent, hsend hhop hlookup,
      ih (hstep _ _ _ hredirects hhop) _⟩

end Along

/-! ### Redirects -/

/-- A redirect leads to a URL that it named, checked under the permit of that URL. -/
theorem Redirects.checked {call : CallScope} {hop hop' : Hop} {answer : ExchangeOutcome}
    (h : Redirects call hop answer hop') :
    ∃ location base next, call.parser location base = some next ∧
      hop'.permit = call.permitOf next ∧
        checkUrl call.parser (.url next) hop'.permit = .ok hop'.target := by
  cases h with
  | @mk status _ _ location next target hparse hcheck =>
    have hpermit : (hop.next target (call.permitOf next) status).permit = call.permitOf next := by
      rw [Hop.next]
      split_ifs <;> rfl
    have htarget : (hop.next target (call.permitOf next) status).target = target := by
      rw [Hop.next]
      split_ifs <;> rfl
    rw [hpermit, htarget]
    exact ⟨location, _, next, hparse, rfl, hcheck⟩

def HopChecked (client : EgressClient) (checked : CheckedCall) (hop : Hop) : Prop :=
  (hop.permit = client.basePermit ∨
    hop.permit = callPermit client checked.source checked.realm) ∧
      ∃ input, checkUrl client.parser input hop.permit = .ok hop.target

theorem permitOf_scopeOf (client : EgressClient) (checked : CheckedCall) (first : CheckedUrl)
    (startedAt : ℤ) (next : Url) : (scopeOf client checked first startedAt).permitOf next =
      if hostOf next = some first.hostname then callPermit client checked.source checked.realm
      else client.basePermit :=
  rfl

theorem HopChecked.redirect {client : EgressClient} {checked : CheckedCall} {first : CheckedUrl}
    {startedAt : ℤ} {hop hop' : Hop} {answer : ExchangeOutcome}
    (h : Redirects (scopeOf client checked first startedAt) hop answer hop') :
    HopChecked client checked hop' := by
  obtain ⟨location, base, next, -, hpermit, hcheck⟩ := h.checked
  refine ⟨?_, _, hcheck⟩
  rw [hpermit, permitOf_scopeOf]
  split_ifs
  · exact .inr rfl
  · exact .inl rfl

/-- No exchange is sent before the URL and the addresses of its hop were checked, under one permit.
Each carries of the caller's headers and body no more than the one before it, credentials only as
long as every hop has the first URL's host and port, and nothing of a body after its method became
`GET`. There is at most one exchange more than redirects may be followed. -/
theorem redirects_reduce (client : EgressClient) (call : EgressRequest)
    (env : Effect.Environment net) :
    sent (callTrace client call env) = [] ∨
      ∃ checked first, checkCall client call = .ok checked ∧
        checkUrl client.parser call.url (callPermit client checked.source checked.realm) =
          .ok first ∧
        (∀ before e after, callTrace client call env = before ++ e :: after →
          SentFrom checked.limits (HopChecked client checked) before e) ∧
        (∀ job ∈ sent (callTrace client call env),
          (∀ name ∈ CREDENTIAL_HEADERS, units name ∈ job.headers.names →
            job.hostname = first.hostname ∧ job.port = first.port) ∧
          (job.method ≠ checked.method → job.method = .get ∧ job.body = none ∧
            ∀ name ∈ BODY_HEADERS, units name ∉ job.headers.names)) ∧
        (sent (callTrace client call env)).Pairwise Reduced ∧
        (sent (callTrace client call env)).length ≤ checked.limits.maxRedirects + 1 := by
  rcases callTrace_called client call env with hnone | ⟨checked, first, startedAt, rest, hchecked,
    hfirst, htrace, hvisits⟩
  · exact .inl hnone
  have hsent : sent (callTrace client call env) = sent rest := by
    rw [htrace]
    rfl
  obtain ⟨hhops, hpairwise⟩ := hvisits.reduced
  have hhop : HopChecked client checked (firstHop client call checked first) :=
    ⟨.inr rfl, _, hfirst⟩
  have hchecks := hvisits.sentFrom (fun _ _ _ h _ ↦ HopChecked.redirect h) hhop [⟨.now, startedAt⟩]
  refine .inr ⟨checked, first, hchecked, hfirst, fun before e after hsplit ↦ ?_, ?_, ?_, ?_⟩
  · have hall : Effect.EachAfter (SentFrom checked.limits (HopChecked client checked)) []
        (before ++ e :: after) := by
      rw [← hsplit, htrace]
      exact ⟨fun job hjob ↦ absurd hjob (Option.some_ne_none _).symm, hchecks⟩
    exact hall.split
  · intro job hjob
    rw [hsent] at hjob
    exact ⟨(hhops job hjob).credentials, (hhops job hjob).turned⟩
  · rwa [hsent]
  · rw [hsent]
    exact hvisits.length_le

/-! ### Addresses -/

theorem checkUrl_ok {parser : UrlParser} {input : UrlInput} {permit : Option AddressPermit}
    {target : CheckedUrl} (h : checkUrl parser input permit = .ok target) :
    ∃ url, parser input.source none = some url ∧ target.hostname = normalizeHostname url.hostname ∧
      target.literalFamily = isIP target.hostname ∧
        (target.literalFamily ≠ 0 → dialable target.hostname target.hostname permit = true) := by
  rw [checkUrl] at h
  cases hparse : parser input.source none with
  | none =>
    rw [hparse] at h
    exact absurd h (by simp)
  | some url =>
    simp only [hparse] at h
    generalize (if url.port = [] then 443 else parseInt 10 url.port) = port at h
    split_ifs at h with hscheme hcredentials haddress
    obtain rfl := Except.ok.inj h
    refine ⟨url, rfl, rfl, rfl, fun hliteral ↦ ?_⟩
    by_contra hnot
    exact haddress ⟨hliteral, by simpa using hnot⟩

/-- An address that passed the checks of a hop is public, or its permit opens it; and it is not
forbidden. -/
theorem dialable_cases {hostname address : JsString} {permit : Option AddressPermit}
    (h : dialable hostname address permit = true) :
    ∃ bytes, Denotes address bytes ∧ ¬ Forbidden bytes ∧
      (Public bytes ∨ ∃ opens, permit = some opens ∧ opens hostname address = true) := by
  rw [dialable, Bool.or_eq_true, decide_eq_true_eq] at h
  rcases h with hkind | hpermitted
  · obtain ⟨bytes, hdenotes, hpublic, hnot⟩ := public_of_kind hkind
    exact ⟨bytes, hdenotes, hnot, .inl hpublic⟩
  · cases permit with
    | none => exact absurd hpermitted (by simp [permitted])
    | some opens =>
      rw [permitted] at hpermitted
      split_ifs at hpermitted with hkind hmetadata
      simp only [not_or] at hkind
      obtain ⟨bytes, hdenotes, hnot⟩ := not_forbidden_of_kind hkind.1 hkind.2.1 hkind.2.2
        (by simpa using hmetadata)
      exact ⟨bytes, hdenotes, hnot, .inr ⟨opens, rfl, hpermitted⟩⟩

theorem Lookup.dialable {parser : UrlParser} {input : UrlInput} {hop : Hop}
    (hcheck : checkUrl parser input hop.permit = .ok hop.target) {before : List NetEvent}
    {addresses : List LookupAddress} (h : Lookup hop before addresses) :
    ∀ a ∈ addresses, dialable hop.target.hostname a.address hop.permit = true := by
  obtain ⟨url, -, -, -, hliteral⟩ := checkUrl_ok hcheck
  cases h with
  | literal h =>
    intro a ha
    obtain rfl := List.mem_singleton.mp ha
    exact hliteral h
  | resolved h hasked hall => exact hall

/-- The host of a hop that may use the allowlist is the first URL's. -/
def OnFirstHost (client : EgressClient) (checked : CheckedCall) (first : CheckedUrl) (hop : Hop) :
    Prop :=
  HopChecked client checked hop ∧
    (hop.permit = client.basePermit ∨
      hop.permit = callPermit client checked.source checked.realm ∧
        hop.target.hostname = first.hostname)

theorem OnFirstHost.redirect {client : EgressClient} {checked : CheckedCall} {first : CheckedUrl}
    {startedAt : ℤ} {hop hop' : Hop} {answer : ExchangeOutcome}
    (hparser : ∀ text base url, client.parser text base = some url →
      client.parser url.href none = some url)
    (h : Redirects (scopeOf client checked first startedAt) hop answer hop') :
    OnFirstHost client checked first hop' := by
  refine ⟨HopChecked.redirect h, ?_⟩
  obtain ⟨location, base, next, hparse, hpermit, hcheck⟩ := h.checked
  rw [permitOf_scopeOf] at hpermit
  by_cases hhost : hostOf next = some first.hostname
  · rw [if_pos hhost] at hpermit
    obtain ⟨url, hurl, hhostname, -⟩ := checkUrl_ok hcheck
    -- the URL that is checked is the one whose host was compared
    obtain rfl := Option.some.inj (hurl.symm.trans (hparser location base next hparse))
    rw [hostOf] at hhost
    split_ifs at hhost
    exact .inr ⟨hpermit, hhostname.trans (Option.some.inj hhost)⟩
  · rw [if_neg hhost] at hpermit
    exact .inl hpermit

theorem mem_sent_iff {events : List NetEvent} {job : Exchange} :
    job ∈ sent events ↔ ∃ before e after, events = before ++ e :: after ∧ e.job? = some job := by
  rw [sent, List.mem_filterMap]
  constructor
  · rintro ⟨e, he, hjob⟩
    obtain ⟨before, after, rfl⟩ := List.append_of_mem he
    exact ⟨before, e, after, rfl, hjob⟩
  · rintro ⟨before, e, after, rfl, hjob⟩
    exact ⟨e, by simp, hjob⟩

theorem checkSource_applies {text : JsString} {source : EgressSource}
    (h : checkSource text = .ok source) (happlies : allowlistApplies source = true) :
    text = units "operator" ∨ text = units "admin" := by
  have hnames : ∀ s ∈ EGRESS_SOURCES, allowlistApplies s.2 = true →
      s.1 = "operator" ∨ s.1 = "admin" := by decide
  rw [checkSource] at h
  cases hfind : EGRESS_SOURCES.find? fun s ↦ units s.1 = text with
  | none =>
    rw [hfind] at h
    exact absurd h (by simp)
  | some s =>
    rw [hfind] at h
    obtain rfl := Except.ok.inj h
    have hname : units s.1 = text := by simpa using List.find?_some hfind
    rcases hnames s (List.mem_of_find?_eq_some hfind) happlies with heq | heq
    · exact .inl (by rw [← hname, heq])
    · exact .inr (by rw [← hname, heq])

theorem checkCall_ok {client : EgressClient} {call : EgressRequest} {checked : CheckedCall}
    (h : checkCall client call = .ok checked) :
    checkSource call.source = .ok checked.source ∧ checked.realm = call.realm := by
  simp only [checkCall, Guards.bind_eq_ok_iff] at h
  obtain ⟨purpose, -, source, hsource, realm, hrealm, method, -, limits, -, headers, -, bytes, -,
    heq⟩ := h
  obtain rfl := Except.ok.inj heq
  rw [checkRealm] at hrealm
  split_ifs at hrealm
  exact ⟨hsource, (Except.ok.inj hrealm).symm⟩

/-- The permit of a call without a base permit is the allowlist's, for the realm that the call names
and a destination that an operator or admin set. -/
theorem callPermit_cases {parser : UrlParser} {limits : EgressLimits}
    {allowlist : Option EgressAllowlist} {call : EgressRequest} {checked : CheckedCall}
    {opens : AddressPermit}
    (hchecked : checkCall (createEgressClient parser limits allowlist) call = .ok checked)
    (h : callPermit (createEgressClient parser limits allowlist) checked.source checked.realm =
      some opens) :
    ∃ realm, call.realm = some realm ∧
      (call.source = units "operator" ∨ call.source = units "admin") ∧
        allowlistPermit (allowlist.getD EMPTY_EGRESS_ALLOWLIST) realm = some opens := by
  obtain ⟨hsource, hrealm⟩ := checkCall_ok hchecked
  rw [callPermit, createEgressClient, eitherPermit, Option.bind_eq_some_iff] at h
  obtain ⟨realm, hrealm', h⟩ := h
  split_ifs at h with happlies
  exact ⟨realm, hrealm.symm.trans hrealm', checkSource_applies hsource happlies, h⟩

/-- Every address that is handed to the transport stands, in whatever form it is written, for one
address; this is never a forbidden one, and it is public, or an allowlist entry that names the
call's realm opens it, to a destination that an operator or admin set and on the first URL's
host. -/
theorem dialled_addresses {parser : UrlParser}
    (hparser : ∀ text base url, parser text base = some url → parser url.href none = some url)
    (limits : EgressLimits) (allowlist : Option EgressAllowlist) (call : EgressRequest)
    (env : Effect.Environment net) {job : Exchange}
    (hjob : job ∈ sent (callTrace (createEgressClient parser limits allowlist) call env))
    {a : LookupAddress} (ha : a ∈ job.addresses) :
    ∃ bytes, Denotes a.address bytes ∧ (∀ bytes', Denotes a.address bytes' → bytes' = bytes) ∧
      ¬ Forbidden bytes ∧
        (Public bytes ∨ ∃ realm entry first, call.realm = some realm ∧
          (call.source = units "operator" ∨ call.source = units "admin") ∧
          entry ∈ (allowlist.getD EMPTY_EGRESS_ALLOWLIST).compiled ∧ realm ∈ entry.realms ∧
          entry.Opens job.hostname bytes ∧ parser call.url.source none = some first ∧
          job.hostname = normalizeHostname first.hostname) := by
  have hcalled := callTrace_called (createEgressClient parser limits allowlist) call env
  obtain ⟨before, e, after, hsplit, hjob⟩ := mem_sent_iff.mp hjob
  rcases hcalled with hnone | ⟨checked, first, startedAt, rest, hchecked, hfirst, htrace, hvisits⟩
  · rw [hsplit, sent, List.filterMap_eq_nil_iff] at hnone
    rw [hnone e (by simp)] at hjob
    exact absurd hjob (Option.some_ne_none _).symm
  obtain ⟨url, hurl, hhostname, -⟩ := checkUrl_ok hfirst
  have hhop : OnFirstHost (createEgressClient parser limits allowlist) checked first
      (firstHop (createEgressClient parser limits allowlist) call checked first) :=
    ⟨⟨.inr rfl, _, hfirst⟩, .inr ⟨rfl, rfl⟩⟩
  have hchecks := hvisits.sentFrom (fun _ _ _ h _ ↦ OnFirstHost.redirect hparser h) hhop
    [⟨.now, startedAt⟩]
  have hall : Effect.EachAfter (SentFrom checked.limits
      (OnFirstHost (createEgressClient parser limits allowlist) checked first)) []
      (before ++ e :: after) := by
    rw [← hsplit, htrace]
    exact ⟨fun job hjob ↦ absurd hjob (Option.some_ne_none _).symm, hchecks⟩
  obtain ⟨hop, addresses, ⟨⟨-, input, hcheck⟩, hfirstHost⟩, hlookup, rfl⟩ := hall.split job hjob
  obtain ⟨bytes, hdenotes, hnot, hcases⟩ := dialable_cases (hlookup.dialable hcheck a ha)
  refine ⟨bytes, hdenotes, fun bytes' h ↦ h.unique hdenotes, hnot, ?_⟩
  rcases hcases with hpublic | ⟨opens, hopens, hopen⟩
  · exact .inl hpublic
  · right
    rcases hfirstHost with hnone | ⟨hpermit, hhost⟩
    · rw [hnone] at hopens
      exact absurd hopens (Option.some_ne_none _).symm
    · obtain ⟨realm, hrealm, hsource, hallow⟩ := callPermit_cases hchecked (hpermit ▸ hopens)
      obtain ⟨entry, hentry, hnames, hentryOpens⟩ :=
        opens_of_allowlistPermit hallow hdenotes hopen
      exact ⟨realm, entry, url, hrealm, hsource, hentry, hnames, hentryOpens, hurl,
        hhost.trans hhostname⟩

section Sample

/-- The URL of an internal service. -/
def internalUrl : Url :=
  ⟨units "https://idp.corp.example/", units "https:", [], [], units "idp.corp.example", [],
    units "/", []⟩

def internalParser : UrlParser := fun text _ ↦
  if text = internalUrl.href then some internalUrl else none

/-- An allowlist that names the service for one realm. -/
def internalAllowlist : EgressAllowlist :=
  ⟨[⟨some (units "idp.corp.example"), none, [units "master"], none⟩],
    [⟨some (units "idp.corp.example"), none, [units "master"]⟩]⟩

/-- An operator's call of the service. -/
def internalCall : EgressRequest :=
  ⟨units "GET", .text internalUrl.href, [], none, units "discovery", units "operator",
    some (units "master"), ⟨none, none, none, none, none⟩⟩

/-- The service has a private address, and answers. -/
def internalNetwork : Effect.Environment net := fun call _ ↦
  match call with
  | .now => (0 : ℤ)
  | .aborted => false
  | .resolveHost .. => .addresses [⟨units "10.20.0.7", 4⟩]
  | .exchange _ => .response 200 .empty [] none

example : (parseEgressAllowlist (.obj [(units "entries", .arr [.obj [
    (units "host", .str (units "IDP.corp.example.")),
    (units "realms", .arr [.str (units "master")])]])]) []).toOption.map (·.compiled.map (·.host)) =
    some [some (units "idp.corp.example")] := by decide

theorem dialled_addresses_internal :
    ∃ job ∈ sent (callTrace (createEgressClient internalParser DEFAULT_EGRESS_LIMITS
      (some internalAllowlist)) internalCall internalNetwork),
      ⟨units "10.20.0.7", 4⟩ ∈ job.addresses ∧ ∃ bytes, Denotes (units "10.20.0.7") bytes ∧
        ¬ Forbidden bytes := by
  have hparser : ∀ text base url, internalParser text base = some url →
      internalParser url.href none = some url := by
    intro text base url h
    rw [internalParser] at h ⊢
    split_ifs at h with htext
    obtain rfl := Option.some.inj h
    exact if_pos rfl
  have hjobs : (sent (callTrace (createEgressClient internalParser DEFAULT_EGRESS_LIMITS
      (some internalAllowlist)) internalCall internalNetwork)).map (·.addresses) =
        [[⟨units "10.20.0.7", 4⟩]] := by decide +kernel
  obtain ⟨job, hjob, haddresses⟩ := List.mem_map.mp (hjobs ▸ List.mem_singleton_self _)
  have hmem : (⟨units "10.20.0.7", 4⟩ : LookupAddress) ∈ job.addresses := by
    rw [haddresses]
    exact List.mem_singleton_self _
  obtain ⟨bytes, hdenotes, -, hnot, -⟩ := dialled_addresses hparser DEFAULT_EGRESS_LIMITS
    (some internalAllowlist) internalCall internalNetwork hjob hmem
  exact ⟨job, hjob, hmem, bytes, hdenotes, hnot⟩

end Sample

end QAuth.Egress
