import QAuth.Policy.Mail

/-!
# The SMTP password and its server

The password of a realm's smtp transport over whole runs of policy updates. A password is used with
the host, the port and the TLS mode of the policies (`transportOf` of `realm-mail.ts`); they are those
in force when it was given, through any change of the provider on the way.
-/

namespace QAuth.Policy

open Guards Json PolicyStore

/-- A store of the realm policies, with the mail group and its rule among them. -/
structure MailPolicyStore extends PolicyStore where
  isEmail : String → Bool
  toLowerCase : Egress.JsString → Egress.JsString
  allowedSmtpHosts : List String
  mailGroup : ("mail", MAIL_POLICY_GROUP isEmail) ∈ groups
  mailRule : createMailTransportRule toLowerCase allowedSmtpHosts ∈ rules

/-! ### Transports -/

/-- A transport, with what it sends with. -/
inductive MailTransport
  | mock
  | resend (apiKey : String)
  | smtp (destination : SmtpDestination) (user : Option Value) (password : String)

/-- Why a realm cannot send mail. -/
inductive RealmMailUnavailable
  | noRealm
  /-- A path is not set. -/
  | missing (path : String)

namespace PolicyStore

variable (store : PolicyStore)

def transportOf (state : StoreState) (realmId : String) :
    Except RealmMailUnavailable MailTransport := do
  let mail ← require ((store.policiesOf state realmId).bind mailOf) .noRealm
  if mail.provider = some (.str "mock") then .ok .mock
  else
    refuseIf (mail.fromAddress = some .null) (.missing "mail.fromAddress")
    if mail.provider = some (.str "resend") then
      let apiKey ← require (state.secrets realmId API_KEY_PATH) (.missing API_KEY_PATH)
      .ok (.resend apiKey)
    else
      refuseIf (mail.smtp.host = some .null) (.missing "mail.smtp.host")
      refuseIf (mail.smtp.port = some .null) (.missing "mail.smtp.port")
      refuseIf (mail.user = some .null) (.missing "mail.smtp.user")
      let password ← require (state.secrets realmId PASSWORD_PATH) (.missing PASSWORD_PATH)
      .ok (.smtp mail.smtp mail.user password)

/-- Smtp is selected with a destination, and the realm has a password. -/
structure Selects (state : StoreState) (realmId : String) (destination : SmtpDestination)
    (password : String) : Prop where
  policies : ∃ policies, store.policiesOf state realmId = some policies ∧
    policies.at? ["mail", "provider"] = some (.str "smtp") ∧ destinationOf policies = destination
  secret : state.secrets realmId PASSWORD_PATH = some password

end PolicyStore

/-! ### Runs -/

/-- A state of a run, with the destination that was in force when the run gave a realm its
password. -/
structure Tracked where
  state : StoreState
  given : String → Option SmtpDestination

namespace MailPolicyStore

variable (store : MailPolicyStore)

def Gives (state : StoreState) (u : PolicyUpdate) : Prop :=
  ∃ planned, store.plan state u = .ok planned ∧ writtenTo planned.writes PASSWORD_PATH = some .set

instance (state : StoreState) (u : PolicyUpdate) : Decidable (store.Gives state u) :=
  match h : store.plan state u with
  | .ok planned =>
    decidable_of_iff (writtenTo planned.writes PASSWORD_PATH = some .set) <| by
      simp [Gives, h]
  | .error e => isFalse <| by
      rintro ⟨planned, hplan, -⟩
      cases h.symm.trans hplan

/-- A run after one more update was asked for. -/
def track (t : Tracked) (u : PolicyUpdate) : Tracked where
  state := (store.submit t.state u).1
  given :=
    match (store.submit t.state u).2 with
    | .ok snapshot =>
      if store.Gives t.state u then
        Function.update t.given u.realmId (some (destinationOf snapshot.policies))
      else t.given
    | .error _ => t.given

/-- A run of updates from a state, in which no password was given yet. -/
def run (start : StoreState) (updates : List PolicyUpdate) : Tracked :=
  updates.foldl store.track ⟨start, fun _ ↦ none⟩

/-- A destination was in force when the run gave a realm its password, or else the run never gave it
one, and it was in force with the same password from the start. -/
def WasInForce (start : StoreState) (t : Tracked) (realmId : String) (destination : SmtpDestination)
    (password : String) : Prop :=
  t.given realmId = some destination ∨
    t.given realmId = none ∧ store.Selects start realmId destination password

end MailPolicyStore

/-! ### The fields of mail -/

/-- A value that `===` tells from every other: no list, no object and no negative zero. -/
def IsScalar : Value → Prop
  | .num x => x ≠ .negativeZero
  | .arr _ | .obj _ => False
  | _ => True

theorem eq_of_strictlyEqual {v w : Value} (hv : IsScalar v) (hw : IsScalar w)
    (h : strictlyEqual (some v) (some w) = true) : v = w := by
  cases v <;> cases w <;> simp_all [strictlyEqual, IsScalar]
  rename_i x y
  cases x <;> cases y <;> simp_all [Number.toRat]

theorem eq_of_deepEqual {v w : Value} (hv : IsScalar v) (h : deepEqual v w = true) : v = w := by
  cases v <;> cases w <;> simp_all [deepEqual, IsScalar]

theorem isScalar_of_isOneOf {texts : List String} {v : Value} (h : isOneOf texts v = true) :
    IsScalar v := by
  cases v <;> simp_all [isOneOf, IsScalar]

theorem isScalar_of_isFlag {v : Value} (h : isFlag v = true) : IsScalar v := by
  cases v <;> simp_all [isFlag, IsScalar]

theorem isScalar_of_isNullOr {test : Value → Bool} {v : Value} (h : isNullOr test v = true)
    (htest : test v = true → IsScalar v) : IsScalar v := by
  cases v <;> simp_all [isNullOr, IsScalar]

theorem isScalar_of_isTextOf {shortest longest : ℕ} {ofClass : Char → Bool} {v : Value}
    (h : isTextOf shortest longest ofClass v = true) : IsScalar v := by
  cases v <;> simp_all [isTextOf, IsScalar]

theorem isScalar_of_isWholeBetween {least most : ℚ} (hleast : 0 < least) {v : Value}
    (h : isWholeBetween least most v = true) : IsScalar v := by
  cases v with
  | num x =>
    rintro rfl
    simp only [isWholeBetween, Number.toRat, Bool.and_eq_true] at h
    exact absurd (of_decide_eq_true h.1.2) (not_le.mpr hleast)
  | _ => simp [isWholeBetween] at h

/-- A field that is no secret, is compared by no order, and takes the values of a test. -/
theorem plain_of_checkedType {f : PolicyField} {test : Value → Bool} {values : Option (List Value)}
    (hsecret : f.secret = false) (hset : isSetDirection f.direction = false)
    (hschema : f.schema = checkedType test values) : f.Plain where
  secret := hsecret
  set := hset
  same v w h := by
    rw [hschema, checkedType] at h
    exact (Option.some.inj (Option.ite_none_right_eq_some.mp h).2).symm

namespace MailPolicyStore

variable {store : MailPolicyStore}

theorem exists_mail_entry (store : MailPolicyStore) (rest : List String)
    (definition : FieldDefinition) {test : Value → Bool} {values : Option (List Value)}
    (hfield : (Shape.group (MAIL_POLICY_GROUP store.isEmail)).field? rest = some definition)
    (hsecret : definition.secret = false) (hset : isSetDirection definition.direction = false)
    (hschema : definition.schema = checkedType test values) :
    ∃ e ∈ store.registry.entries, e.segments = "mail" :: rest ∧ e.field.Plain ∧
      ∀ v, fieldSchema e.field (some v) = some (some v) → test v = true := by
  obtain ⟨e, he, hsegments, rfl⟩ := store.registered.exists_entry store.mailGroup hfield
  refine ⟨e, he, hsegments, plain_of_checkedType hsecret hset hschema, fun v hv ↦ ?_⟩
  simp only [fieldSchema, hsecret, Bool.false_and, Bool.false_eq_true, if_false,
    Option.map_eq_some_iff, baseSchema, hschema, checkedType] at hv
  obtain ⟨w, hw, -⟩ := hv
  exact (Option.ite_none_right_eq_some.mp (Option.filter_eq_some_iff.mp hw).1).1

/-- A path below `mail` whose values, once parsed, are scalars. -/
def ScalarAt (store : MailPolicyStore) (rest : List String) : Prop :=
  ∃ e ∈ store.registry.entries, e.segments = "mail" :: rest ∧ e.field.Plain ∧
    ∀ v, fieldSchema e.field (some v) = some (some v) → IsScalar v

theorem scalarAt_provider (store : MailPolicyStore) : store.ScalarAt ["provider"] := by
  obtain ⟨e, he, hsegments, hplain, htest⟩ := exists_mail_entry store ["provider"] providerField
    rfl rfl rfl rfl
  exact ⟨e, he, hsegments, hplain, fun v hv ↦ isScalar_of_isOneOf (htest v hv)⟩

theorem scalarAt_host (store : MailPolicyStore) : store.ScalarAt ["smtp", "host"] := by
  obtain ⟨e, he, hsegments, hplain, htest⟩ := exists_mail_entry store ["smtp", "host"] hostField
    rfl rfl rfl rfl
  exact ⟨e, he, hsegments, hplain, fun v hv ↦
    isScalar_of_isNullOr (htest v hv) isScalar_of_isTextOf⟩

theorem scalarAt_port (store : MailPolicyStore) : store.ScalarAt ["smtp", "port"] := by
  obtain ⟨e, he, hsegments, hplain, htest⟩ := exists_mail_entry store ["smtp", "port"] portField
    rfl rfl rfl rfl
  exact ⟨e, he, hsegments, hplain, fun v hv ↦
    isScalar_of_isNullOr (htest v hv) (isScalar_of_isWholeBetween one_pos)⟩

theorem scalarAt_secure (store : MailPolicyStore) : store.ScalarAt ["smtp", "secure"] := by
  obtain ⟨e, he, hsegments, hplain, htest⟩ := exists_mail_entry store ["smtp", "secure"] secureField
    rfl rfl rfl rfl
  exact ⟨e, he, hsegments, hplain, fun v hv ↦ isScalar_of_isFlag (htest v hv)⟩

/-- What parsed policies hold where they hold scalars. -/
theorem exists_scalar {rest : List String} (h : store.ScalarAt rest) {view : PolicyView}
    {given parsed : Value} (hparse : store.registry.parse view given = some parsed) :
    ∃ v, parsed.at? ("mail" :: rest) = some v ∧ IsScalar v := by
  obtain ⟨e, he, hsegments, hplain, hscalar⟩ := h
  obtain ⟨v, hv, hagain, -⟩ := at?_of_parse_plain hparse he hplain
  exact ⟨v, hsegments ▸ hv, hscalar v hagain⟩

/-- Parsed policies have the mail group. -/
theorem mailOf_of_parse (store : MailPolicyStore) {view : PolicyView} {given parsed : Value}
    (hparse : store.registry.parse view given = some parsed) :
    ∃ mail, parsed.at? ["mail"] = some mail ∧ mailOf parsed = some {
      provider := parsed.at? ["mail", "provider"]
      fromAddress := parsed.at? ["mail", "fromAddress"]
      smtp := destinationOf parsed
      user := parsed.at? ["mail", "smtp", "user"] } := by
  obtain ⟨v, hv, -⟩ := exists_scalar store.scalarAt_provider hparse
  rw [Value.at?_cons] at hv
  obtain ⟨mail, hmail, -⟩ := Option.bind_eq_some_iff.mp hv
  have hat : parsed.at? ["mail"] = some mail := by
    rw [Value.at?_cons, hmail, Option.bind_some, Value.at?_nil]
  exact ⟨mail, hat, by rw [mailOf, hat, Option.map_some]⟩

/-- Parsed policies whose mail groups are alike hold the same scalars below it. -/
theorem at?_eq_of_deepEqual {rest : List String} (h : store.ScalarAt rest) {view : PolicyView}
    {given before after b a : Value}
    (hbefore : store.registry.parse view given = some before) (hb : before.at? ["mail"] = some b)
    (ha : after.at? ["mail"] = some a) (halike : deepEqual b a = true) :
    before.at? ("mail" :: rest) = after.at? ("mail" :: rest) := by
  have hinto {policies mail : Value} (hmail : policies.at? ["mail"] = some mail) :
      policies.at? ("mail" :: rest) = mail.at? rest := by
    rw [Value.at?_cons] at hmail ⊢
    obtain ⟨m, hm, hnil⟩ := Option.bind_eq_some_iff.mp hmail
    obtain rfl : m = mail := by simpa using hnil
    rw [hm, Option.bind_some]
  obtain ⟨v, hv, hscalar⟩ := exists_scalar h hbefore
  rw [hinto hb] at hv ⊢
  obtain ⟨w, hw, hvw⟩ := exists_at?_of_deepEqual halike hv
  rw [hinto ha, hv, hw, eq_of_deepEqual hscalar hvw]

/-- Parsed policies that hold what is `===` below mail hold the same scalar. -/
theorem at?_eq_of_strictlyEqual {rest : List String} (h : store.ScalarAt rest)
    {view view' : PolicyView} {given given' before after : Value}
    (hbefore : store.registry.parse view given = some before)
    (hafter : store.registry.parse view' given' = some after)
    (hequal : strictlyEqual (before.at? ("mail" :: rest)) (after.at? ("mail" :: rest)) = true) :
    before.at? ("mail" :: rest) = after.at? ("mail" :: rest) := by
  obtain ⟨v, hv, hvs⟩ := exists_scalar h hbefore
  obtain ⟨w, hw, hws⟩ := exists_scalar h hafter
  rw [hv, hw] at hequal ⊢
  rw [eq_of_strictlyEqual hvs hws hequal]

/-! ### One update -/

variable {state after : StoreState} {u : PolicyUpdate} {planned : Planned}
  {snapshot : RealmPolicySnapshot} {realmId password : String} {destination : SmtpDestination}

/-- The rule of mail lets an accepted update through. -/
theorem rule_of_update (h : store.update u state = .ok (after, snapshot))
    (hplan : store.plan state u = .ok planned) :
    createMailTransportRule store.toLowerCase store.allowedSmtpHosts planned.next
      (store.contextOf (state.secrets u.realmId) planned.current.document planned.writes) =
      .ok [] := by
  obtain ⟨planned', document, hplan', hrules, -⟩ := update_eq_ok h
  obtain rfl : planned = planned' := Except.ok.inj (hplan.symm.trans hplan')
  simp only [checkRules, bind_eq_ok_iff, refuseIf_eq_ok_iff, not_not] at hrules
  obtain ⟨issues, hissues, hnone⟩ := hrules
  obtain ⟨found, hfound, hrule⟩ := exists_mem_of_mapM hissues store.mailRule
  obtain rfl : found = [] := List.flatten_eq_nil_iff.mp hnone found hfound
  exact hrule

theorem at?_of_update (h : store.update u state = .ok (after, snapshot))
    (hplan : store.plan state u = .ok planned) {rest : List String}
    (hscalar : store.ScalarAt rest) :
    snapshot.policies.at? ("mail" :: rest) = planned.next.at? ("mail" :: rest) := by
  obtain ⟨e, he, hsegments, hplain, -⟩ := hscalar
  rw [← hsegments]
  exact at?_policies_of_update h hplan he hplain

theorem destinationOf_of_update (h : store.update u state = .ok (after, snapshot))
    (hplan : store.plan state u = .ok planned) :
    destinationOf snapshot.policies = destinationOf planned.next := by
  simp only [destinationOf, at?_of_update h hplan store.scalarAt_host,
    at?_of_update h hplan store.scalarAt_port, at?_of_update h hplan store.scalarAt_secure]

/-- Where two policies select smtp with nothing of the destination changed, it is the same. -/
theorem settled_of_changes {view view' : PolicyView} {given given' before next : Value}
    {b a : MailTransportFields} (hbefore : store.registry.parse view given = some before)
    (hnext : store.registry.parse view' given' = some next) (hb : mailOf before = some b)
    (ha : mailOf next = some a) (hsmtp : a.selectsSmtp) (h : smtpDestinationChanges b a = []) :
    before.at? ["mail", "provider"] = some (.str "smtp") ∧ destinationOf before = destinationOf next := by
  obtain ⟨_, -, hb'⟩ := store.mailOf_of_parse hbefore
  obtain ⟨_, -, ha'⟩ := store.mailOf_of_parse hnext
  obtain rfl := Option.some.inj (hb.symm.trans hb')
  obtain rfl := Option.some.inj (ha.symm.trans ha')
  obtain ⟨hprovider, hhost, hport, hsecure⟩ := (smtpDestinationChanges_eq_nil_iff hsmtp).mp h
  refine ⟨hprovider, ?_⟩
  simp only [destinationOf, SmtpDestination.mk.injEq]
  exact ⟨at?_eq_of_strictlyEqual store.scalarAt_host hbefore hnext hhost,
    at?_eq_of_strictlyEqual store.scalarAt_port hbefore hnext hport,
    at?_eq_of_strictlyEqual store.scalarAt_secure hbefore hnext hsecure⟩

theorem selects_of_update (h : store.update u state = .ok (after, snapshot))
    (hplan : store.plan state u = .ok planned)
    (hgives : writtenTo planned.writes PASSWORD_PATH ≠ some .set)
    (hselects : store.Selects after u.realmId destination password) :
    store.Selects state u.realmId destination password := by
  obtain ⟨⟨policies, hpolicies, hsmtp, rfl⟩, hsecret⟩ := hselects
  obtain rfl : snapshot.policies = policies :=
    Option.some.inj ((policiesOf_of_update h).symm.trans hpolicies)
  -- the update left the password
  obtain ⟨planned', document, hplan', -, -, -, -, hsecrets⟩ := update_eq_ok h
  obtain rfl : planned = planned' := Except.ok.inj (hplan.symm.trans hplan')
  rw [hsecrets, Function.update_self] at hsecret
  obtain hcleared | ⟨hwritten, hkept⟩ :=
    @putAll_eq (state.secrets u.realmId) _ (nodup_writes hplan) _ hgives
  · cases hcleared.symm.trans hsecret
  rw [hkept] at hsecret
  -- what the update stored is what it planned
  rw [at?_of_update h hplan store.scalarAt_provider] at hsmtp
  rw [destinationOf_of_update h hplan]
  obtain ⟨-, ⟨read, -, hcurrent⟩, ⟨merged, hmerged⟩, -, -⟩ := plan_eq_ok hplan
  obtain ⟨given, hparsed⟩ := parsed_of_effective hcurrent
  obtain ⟨b, hb, hbefore⟩ := store.mailOf_of_parse hparsed
  obtain ⟨a, ha, hafter⟩ := store.mailOf_of_parse hmerged
  have hcurrentPolicies := policiesOf_of_plan hplan
  -- the rule let it through: mail is as it was, or smtp is selected with the same destination
  obtain ⟨b', a', hb', ha', halike⟩ | ⟨set, hset, hsettled⟩ :=
    alike_or_settled_of_rule (rule_of_update h hplan) hbefore hafter hsmtp hgives
  · have hsame {rest : List String} (hscalar : store.ScalarAt rest) :
        planned.current.document.at? ("mail" :: rest) = planned.next.at? ("mail" :: rest) :=
      at?_eq_of_deepEqual hscalar hparsed hb' ha' halike
    refine ⟨⟨_, hcurrentPolicies, (hsame store.scalarAt_provider).trans hsmtp, ?_⟩, hsecret⟩
    simp only [destinationOf, hsame store.scalarAt_host, hsame store.scalarAt_port,
      hsame store.scalarAt_secure]
  · have hisSet : set = true := by
      have hbefore' : store.setBefore (state.secrets u.realmId) PASSWORD_PATH = some set := by
        simpa only [contextOf, setAfter, hwritten, require_eq_ok_iff] using hset
      rw [setBefore] at hbefore'
      split_ifs at hbefore'
      rw [← Option.some.inj hbefore', hsecret]
      rfl
    obtain ⟨hprovider, hdest⟩ :=
      settled_of_changes hparsed hmerged hbefore hafter hsmtp (hsettled hisSet)
    exact ⟨⟨_, hcurrentPolicies, hprovider, hdest⟩, hsecret⟩

/-! ### Every run -/

variable {start : StoreState} {t : Tracked}

theorem wasInForce_of_update (hbefore : ∀ destination password,
      store.Selects t.state realmId destination password →
        store.WasInForce start t realmId destination password)
    (h : store.Selects (store.track t u).state realmId destination password) :
    store.WasInForce start (store.track t u) realmId destination password := by
  obtain ⟨after, snapshot, hupdate, hsubmit⟩ | ⟨error, -, hsubmit⟩ :=
    submit_cases store.toPolicyStore t.state u
  · rw [track, hsubmit] at h ⊢
    by_cases hrealm : realmId = u.realmId
    · subst hrealm
      obtain ⟨planned, document, hplan, -⟩ := update_eq_ok hupdate
      by_cases hgives : store.Gives t.state u
      · -- what is in force is what was stored with the password
        obtain ⟨⟨policies, hpolicies, -, rfl⟩, -⟩ := h
        obtain rfl : snapshot.policies = policies :=
          Option.some.inj ((policiesOf_of_update hupdate).symm.trans hpolicies)
        left
        simp only [if_pos hgives, Function.update_self]
      · have hwritten : writtenTo planned.writes PASSWORD_PATH ≠ some .set :=
          fun hset ↦ hgives ⟨planned, hplan, hset⟩
        simpa only [WasInForce, if_neg hgives] using
          hbefore destination password (selects_of_update hupdate hplan hwritten h)
    · -- another realm's update
      obtain ⟨hrecords, hsecrets⟩ := other_of_update hupdate hrealm
      have hselects : store.Selects t.state realmId destination password := by
        obtain ⟨hpolicies, hsecret⟩ := h
        refine ⟨?_, hsecrets ▸ hsecret⟩
        rwa [policiesOf, hrecords] at hpolicies
      have hforce := hbefore destination password hselects
      split_ifs
      · simpa only [WasInForce, Function.update_of_ne hrealm] using hforce
      · exact hforce
  · rw [track, hsubmit] at h ⊢
    exact hbefore destination password h

theorem wasInForce_of_selects (updates : List PolicyUpdate)
    (h : store.Selects (store.run start updates).state realmId destination password) :
    store.WasInForce start (store.run start updates) realmId destination password := by
  have hrun : ∀ (updates : List PolicyUpdate) (t : Tracked),
      (∀ destination password, store.Selects t.state realmId destination password →
        store.WasInForce start t realmId destination password) →
      ∀ destination password,
        store.Selects (updates.foldl store.track t).state realmId destination password →
          store.WasInForce start (updates.foldl store.track t) realmId destination password := by
    intro updates
    induction updates with
    | nil => exact fun _ h ↦ h
    | cons u rest ih =>
      intro t ht
      exact ih (store.track t u) fun _ _ ↦ wasInForce_of_update ht
  exact hrun updates ⟨start, fun _ ↦ none⟩ (fun _ _ h ↦ .inr ⟨rfl, h⟩) destination password h

theorem provider_cases {policies : Value} (h : store.policiesOf state realmId = some policies) :
    ∃ provider ∈ ["mock", "resend", "smtp"],
      policies.at? ["mail", "provider"] = some (.str provider) := by
  simp only [policiesOf, Option.bind_eq_some_iff, Option.map_eq_some_iff] at h
  obtain ⟨record, -, read, hread, rfl⟩ := h
  have hsnapshot : store.snapshotOf realmId record = .ok read := by
    cases hread' : store.snapshotOf realmId record <;> simp_all [Except.toOption]
  simp only [snapshotOf, bind_eq_ok_iff] at hsnapshot
  obtain ⟨_, -, current, hcurrent, h⟩ := hsnapshot
  cases h
  obtain ⟨given, hparsed⟩ := parsed_of_effective hcurrent
  obtain ⟨e, he, hsegments, hplain, htest⟩ := exists_mail_entry store ["provider"] providerField
    rfl rfl rfl rfl
  obtain ⟨v, hv, hagain, -⟩ := at?_of_parse_plain hparsed he hplain
  rw [← hsegments, hv]
  have hone := htest v hagain
  cases v with
  | str s => exact ⟨s, by simpa [isOneOf] using hone, rfl⟩
  | _ => simp [isOneOf] at hone

theorem selects_of_transportOf {user : Option Value}
    (h : store.transportOf state realmId = .ok (.smtp destination user password)) :
    store.Selects state realmId destination password := by
  simp only [transportOf, bind_eq_ok_iff, require_eq_ok_iff, Option.bind_eq_some_iff] at h
  obtain ⟨mail, ⟨policies, hpolicies, hmail⟩, h⟩ := h
  obtain ⟨_, -, hfields⟩ := Option.map_eq_some_iff.mp hmail
  by_cases hmock : mail.provider = some (.str "mock")
  · simp [hmock] at h
  rw [if_neg hmock, bind_eq_ok_iff] at h
  obtain ⟨_, -, h⟩ := h
  by_cases hresend : mail.provider = some (.str "resend")
  · rw [if_pos hresend, bind_eq_ok_iff] at h
    obtain ⟨_, -, h⟩ := h
    cases h
  rw [if_neg hresend] at h
  simp only [bind_eq_ok_iff, require_eq_ok_iff] at h
  obtain ⟨_, -, _, -, _, -, password', hpassword, h⟩ := h
  cases h
  refine ⟨⟨policies, hpolicies, ?_, ?_⟩, hpassword⟩
  · obtain ⟨provider, hmem, hprovider⟩ := provider_cases hpolicies
    rw [← hfields] at hmock hresend
    simp only [hprovider] at hmock hresend ⊢
    simp only [List.mem_cons, List.not_mem_nil, or_false] at hmem
    obtain rfl | rfl | rfl := hmem
    · exact absurd rfl hmock
    · exact absurd rfl hresend
    · rfl
  · rw [← hfields]

/-- After every run of updates, a password that the transport of a realm would send with goes to the
host and port, in the TLS mode, in force when it was given; and an update that would leave it with
another destination without giving it again is refused, and changes nothing. -/
theorem password_keeps_destination (store : MailPolicyStore) (start : StoreState)
    (updates : List PolicyUpdate) (realmId : String) :
    (∀ destination user password,
      store.transportOf (store.run start updates).state realmId =
          .ok (.smtp destination user password) →
        store.WasInForce start (store.run start updates) realmId destination password) ∧
      ∀ (u : PolicyUpdate) (planned : Planned) (password : String), u.realmId = realmId →
        store.plan (store.run start updates).state u = .ok planned →
        planned.next.at? ["mail", "provider"] = some (.str "smtp") →
        (store.run start updates).state.secrets realmId PASSWORD_PATH = some password →
        writtenTo planned.writes PASSWORD_PATH = none →
        ¬ store.WasInForce start (store.run start updates) realmId (destinationOf planned.next)
            password →
          ∃ error, store.submit (store.run start updates).state u =
            ((store.run start updates).state, .error error) := by
  refine ⟨fun destination user password h ↦
    wasInForce_of_selects updates (selects_of_transportOf h), ?_⟩
  rintro u planned password rfl hplan hsmtp hsecret hwritten hforce
  obtain ⟨after, snapshot, hupdate, -⟩ | ⟨error, -, hsubmit⟩ :=
    submit_cases store.toPolicyStore (store.run start updates).state u
  · exfalso
    refine hforce (wasInForce_of_selects updates ?_)
    refine selects_of_update hupdate hplan (by rw [hwritten]; nofun) ?_
    obtain ⟨planned', document, hplan', -, -, -, -, hsecrets⟩ := update_eq_ok hupdate
    obtain rfl : planned = planned' := Except.ok.inj (hplan.symm.trans hplan')
    refine ⟨⟨_, policiesOf_of_update hupdate, ?_, destinationOf_of_update hupdate hplan⟩, ?_⟩
    · exact (at?_of_update hupdate hplan store.scalarAt_provider).trans hsmtp
    · rw [hsecrets, Function.update_self, putAll_of_not_written (nodup_writes hplan) hwritten,
        hsecret]
  · exact ⟨error, hsubmit⟩

end MailPolicyStore

end QAuth.Policy
