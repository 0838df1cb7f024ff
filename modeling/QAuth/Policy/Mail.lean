import QAuth.Egress.Allowlist
import QAuth.Policy.Store

/-!
# The mail policies

The group `mail` of the realm policies (`groups/mail.ts`): its fields, and the rule that an update
must leave the transport able to send, and its password with the server it was given for. Zod's test
of an e-mail address and `toLowerCase` are parameters.
-/

namespace QAuth.Policy

open Guards Json

/-! ### Types -/

def checkedType (test : Value → Bool) (values : Option (List Value)) : ZodType where
  safeParse v := if test v then some v else none
  acceptsUndefined := false
  values
  hasInputSchema := true
  hasOutputSchema := true

/-- A text with a length in UTF-16 code units, of characters of a class. -/
def isTextOf (shortest longest : ℕ) (ofClass : Char → Bool) : Value → Bool
  | .str s => shortest ≤ Text.utf16Length s && Text.utf16Length s ≤ longest &&
      Text.matchesAll ofClass s
  | _ => false

/-- A whole number between two bounds. -/
def isWholeBetween (least most : ℚ) : Value → Bool
  | .num x => x.toRat.den = 1 && least ≤ x.toRat && x.toRat ≤ most
  | _ => false

/-- One of some texts. -/
def isOneOf (texts : List String) : Value → Bool
  | .str s => texts.contains s
  | _ => false

def isFlag : Value → Bool
  | .bool _ => true
  | _ => false

/-- A value of a test, or `null`. -/
def isNullOr (test : Value → Bool) : Value → Bool
  | .null => true
  | v => test v

/-- `/^[^\r\n]*$/` -/
def isSingleLine (c : Char) : Bool := c ≠ '\r' && c ≠ '\n'

/-- `[^\s/@]` -/
def isHostCharacter (c : Char) : Bool := !Text.isSpace c && c ≠ '/' && c ≠ '@'

/-! ### The fields -/

/-- `groupDocsLink('mail')` -/
def mailDocsLink : String := "https://docs.qauth.dev/reference/realm-policies/#mail"

/-- A field of the transport or the sender: every change of one is a security operation. -/
def transportField (schema : ZodType) (seedEnv : String) (default : Value) (secret : Bool)
    (summary : String) : FieldDefinition where
  schema
  seedEnv := some seedEnv
  default
  direction := .opaqueKind
  securityWhen := .anyChange
  effects := [.credentialPath]
  secret
  environmentBound := true
  doc := ⟨summary, mailDocsLink⟩

/-- The type of `mail.provider`. -/
def providerType : ZodType :=
  checkedType (isOneOf ["mock", "resend", "smtp"]) (some [.str "mock", .str "resend", .str "smtp"])

/-- `mail.provider` -/
def providerField : FieldDefinition :=
  transportField providerType "EMAIL_PROVIDER" (.str "mock") false
    "Which transport sends the realm mail: mock (logs only), resend or smtp."

/-- `mail.smtp.host` -/
def hostField : FieldDefinition :=
  transportField (checkedType (isNullOr (isTextOf 1 253 isHostCharacter)) none) "SMTP_HOST" .null false
    "The SMTP server the smtp transport connects to."

/-- `mail.smtp.port` -/
def portField : FieldDefinition :=
  transportField (checkedType (isNullOr (isWholeBetween 1 65535)) none) "SMTP_PORT" .null false
    "The port of the SMTP server."

/-- `mail.smtp.secure` -/
def secureField : FieldDefinition :=
  transportField (checkedType isFlag none) "SMTP_SECURE" (.bool true) false
    "Whether the SMTP connection uses TLS from its start."

/-- A secret of a transport. -/
def secretType : ZodType := checkedType (isTextOf 1 1024 fun _ ↦ true) none

/-- `mail.smtp.password` -/
def passwordField : FieldDefinition :=
  transportField secretType "SMTP_PASSWORD" .null true
    "The password the smtp transport signs in with."

def MAIL_POLICY_GROUP (isEmail : String → Bool) : List (String × Shape) :=
  [("provider", .field providerField),
    ("fromAddress", .field <| transportField
      (checkedType (isNullOr fun v ↦ (text? v).any isEmail && isTextOf 0 254 (fun _ ↦ true) v) none)
      "EMAIL_FROM_ADDRESS" .null false "The address the realm mail is sent from."),
    ("fromName", .field <| transportField (checkedType (isTextOf 1 100 isSingleLine) none)
      "EMAIL_FROM_NAME" (.str "QAuth") false "The sender name the realm mail shows."),
    ("smtp", .group
      [("host", .field hostField),
        ("port", .field portField),
        ("secure", .field secureField),
        ("user", .field <| transportField
          (checkedType (isNullOr (isTextOf 1 255 isSingleLine)) none) "SMTP_USER" .null false
          "The user name the smtp transport signs in with."),
        ("password", .field passwordField)]),
    ("resend", .group
      [("apiKey", .field <| transportField secretType "RESEND_API_KEY" .null true
        "The API key the resend transport sends with.")]),
    ("verificationTokenExpirySeconds", .field {
      schema := checkedType (isWholeBetween 3600 9007199254740991) none
      seedEnv := some "EMAIL_VERIFICATION_TOKEN_EXPIRY"
      default := .num (.exact 86400)
      direction := .lowerIsStricter
      securityWhen := .loosening
      effects := [.postureLoosening]
      secret := false
      environmentBound := true
      doc := ⟨"How long a verification link is valid, in seconds, at least one hour.",
        mailDocsLink⟩ }),
    ("invalidateExistingTokensOnResend", .field {
      schema := checkedType isFlag none
      seedEnv := some "EMAIL_VERIFICATION_INVALIDATE_EXISTING_ON_RESEND"
      default := .bool true
      direction := .trueIsStricter
      securityWhen := .never
      effects := []
      secret := false
      environmentBound := true
      doc := ⟨"Whether sending a new verification link makes the earlier ones invalid, so only " ++
        "the latest works.", mailDocsLink⟩ })]

/-! ### Hosts -/

/-- `replace(/^\[(.*)\]$/, '$1')`, of a text on one line. -/
def unbracketed (host : Egress.JsString) : Egress.JsString :=
  if host.head? = some (Egress.unit '[') ∧ host.getLast? = some (Egress.unit ']') ∧ 2 ≤ host.length
  then host.tail.dropLast
  else host

section Hosts

variable (toLowerCase : Egress.JsString → Egress.JsString)

/-- An SMTP host as the checks compare it. -/
def normalizeSmtpHost (host : Egress.JsString) : Egress.JsString :=
  unbracketed (Egress.stripDot (toLowerCase (Egress.trim host)))

/-- Whether a host names the local machine by name. -/
def isLocalhostName (host : Egress.JsString) : Bool :=
  host = Egress.units "localhost" || (Egress.units ".localhost").isSuffixOf host

/-- Why a realm may not name a host as its SMTP server, where it may not. -/
def smtpHostRefusal (host : Egress.JsString) (allowedHosts : List Egress.JsString) : Option String :=
  let normalized := normalizeSmtpHost toLowerCase host
  let literal := Egress.isIP normalized ≠ 0
  if literal ∧ Egress.isCloudMetadataAddress normalized then
    some "must not be a cloud metadata address"
  else if normalized ∈ allowedHosts then none
  else if isLocalhostName normalized ∨ literal ∧ Egress.addressKind normalized ≠ .publicUnicast then
    some ("must be a public host: localhost and loopback, private, link-local and unique-local " ++
      "addresses are refused unless SMTP_ALLOWED_HOSTS names the host")
  else none

end Hosts

/-! ### The rule -/

/-- What says where the password of the smtp transport goes. -/
structure SmtpDestination where
  host : Option Value
  port : Option Value
  secure : Option Value

/-- The mail group as its rule reads it. -/
structure MailTransportFields where
  provider : Option Value
  fromAddress : Option Value
  smtp : SmtpDestination
  user : Option Value

/-- Where the password goes by some policies. -/
def destinationOf (policies : Value) : SmtpDestination where
  host := policies.at? ["mail", "smtp", "host"]
  port := policies.at? ["mail", "smtp", "port"]
  secure := policies.at? ["mail", "smtp", "secure"]

/-- The mail group of some policies. -/
def mailOf (policies : Value) : Option MailTransportFields :=
  (policies.at? ["mail"]).map fun _ ↦
    { provider := policies.at? ["mail", "provider"]
      fromAddress := policies.at? ["mail", "fromAddress"]
      smtp := destinationOf policies
      user := policies.at? ["mail", "smtp", "user"] }

def PASSWORD_PATH : String := "mail.smtp.password"

def API_KEY_PATH : String := "mail.resend.apiKey"

/-- The secret fields of the mail transports. -/
def MAIL_SECRET_PATHS : List String := [PASSWORD_PATH, API_KEY_PATH]

def MailTransportFields.selectsSmtp (mail : MailTransportFields) : Prop :=
  mail.provider = some (.str "smtp")

instance (mail : MailTransportFields) : Decidable mail.selectsSmtp :=
  inferInstanceAs (Decidable (_ = _))

/-- The issue of a field that is not set. -/
def gapAt (path message : String) (value : Option Value) : List PolicyIssue :=
  if value = some .null then [⟨path, message⟩] else []

def secretGap (path provider : String) (isSet : Bool) : List PolicyIssue :=
  if isSet then [] else [⟨path, s!"must be set when mail.provider is {provider}"⟩]

/-- What the mail transport of some policies lacks to send. -/
def mailTransportGaps (policies : Value) (isSet : String → Except PolicyStoreError Bool) :
    Except PolicyStoreError (List PolicyIssue) :=
  match mailOf policies with
  | none => .ok []
  | some mail =>
    if mail.provider = some (.str "mock") then .ok []
    else
      let provider := (mail.provider.bind text?).getD ""
      let why := s!"is required when mail.provider is {provider}"
      let sender := gapAt "mail.fromAddress" why mail.fromAddress
      if mail.selectsSmtp then do
        let set ← isSet PASSWORD_PATH
        .ok (sender ++ gapAt "mail.smtp.host" why mail.smtp.host ++
          gapAt "mail.smtp.port" why mail.smtp.port ++ gapAt "mail.smtp.user" why mail.user ++
          secretGap PASSWORD_PATH "smtp" set)
      else do
        let set ← isSet API_KEY_PATH
        .ok (sender ++ secretGap API_KEY_PATH "resend" set)

/-- The fields of the smtp transport that say where its password goes, and changed. -/
def smtpDestinationChanges (before after : MailTransportFields) : List String :=
  if ¬ after.selectsSmtp then []
  else
    (if before.selectsSmtp then [] else ["mail.provider"]) ++
      (if strictlyEqual before.smtp.host after.smtp.host then [] else ["mail.smtp.host"]) ++
      (if strictlyEqual before.smtp.port after.smtp.port then [] else ["mail.smtp.port"]) ++
      (if strictlyEqual before.smtp.secure after.smtp.secure then [] else ["mail.smtp.secure"])

/-- The issue of a password that is kept while its destination changes. -/
def giveAgain (changed : List String) : PolicyIssue where
  path := PASSWORD_PATH
  message := "must be given again when " ++ ", ".intercalate changed ++
    if changed.length = 1 then " changes" else " change"

def NewHost (before : Option MailTransportFields) (after : MailTransportFields) : Prop :=
  after.selectsSmtp ∧ after.smtp.host ≠ some .null ∧
    ∀ b ∈ before, ¬ b.selectsSmtp ∨ ¬ strictlyEqual b.smtp.host after.smtp.host

instance (before : Option MailTransportFields) (after : MailTransportFields) :
    Decidable (NewHost before after) := by
  unfold NewHost
  cases before <;> infer_instance

/-- An update writes no mail secret and changes nothing of mail. -/
def leavesMailAlone (policies : Value) (context : PolicyRuleContext) : Bool :=
  !(MAIL_SECRET_PATHS.any fun path ↦ (context.written path).isSome) &&
    match context.previous.at? ["mail"], policies.at? ["mail"] with
    | some before, some after => deepEqual before after
    | _, _ => false

/-- What the transport lacked before an update. -/
def gapsBefore (context : PolicyRuleContext) : Except PolicyStoreError (List PolicyIssue) :=
  if (mailOf context.previous).isNone then .ok []
  else mailTransportGaps context.previous context.wasSet

/-- A password stays set that an update does not give, where its destination changes. -/
def carriesPassword (context : PolicyRuleContext) (changed : List String) :
    Except PolicyStoreError Bool :=
  if changed ≠ [] ∧ context.written PASSWORD_PATH ≠ some .set then context.isSet PASSWORD_PATH
  else .ok false

/-- The issue of a new smtp host that a realm may not name. -/
def newHostIssue (toLowerCase : Egress.JsString → Egress.JsString) (allowedHosts : List String)
    (before : Option MailTransportFields) (after : MailTransportFields) : List PolicyIssue :=
  if NewHost before after then
    let refusal := (after.smtp.host.bind text?).bind fun host ↦
      smtpHostRefusal toLowerCase (Egress.units host)
        (allowedHosts.map fun h ↦ normalizeSmtpHost toLowerCase (Egress.units h))
    (refusal.map fun message ↦ ⟨"mail.smtp.host", message⟩).toList
  else []

def createMailTransportRule (toLowerCase : Egress.JsString → Egress.JsString)
    (allowedHosts : List String) : PolicyRule := fun policies context ↦
  match mailOf policies with
  | none => .ok []
  | some after =>
    if leavesMailAlone policies context then .ok []
    else do
      let before := mailOf context.previous
      let previousGaps ← gapsBefore context
      let gaps ← mailTransportGaps policies context.isSet
      let issues := gaps.filter (· ∉ previousGaps)
      let changed := (before.map (smtpDestinationChanges · after)).getD []
      let carried ← carriesPassword context changed
      let again := if carried ∧ giveAgain changed ∉ issues then [giveAgain changed] else []
      .ok (issues ++ again ++ newHostIssue toLowerCase allowedHosts before after)

/-! ### What the rule lets through -/

section Rule

variable {before after : MailTransportFields} {policies : Value} {context : PolicyRuleContext}
  {toLowerCase : Egress.JsString → Egress.JsString} {allowedHosts : List String}

theorem smtpDestinationChanges_eq_nil_iff (hsmtp : after.selectsSmtp) :
    smtpDestinationChanges before after = [] ↔
      before.selectsSmtp ∧ strictlyEqual before.smtp.host after.smtp.host = true ∧
        strictlyEqual before.smtp.port after.smtp.port = true ∧
        strictlyEqual before.smtp.secure after.smtp.secure = true := by
  rw [smtpDestinationChanges, if_neg (not_not.mpr hsmtp)]
  simp only [List.append_eq_nil_iff, ite_eq_left_iff, reduceCtorEq, imp_false, not_not, and_assoc]

/-- The gaps of the smtp transport are told only where it is known whether its password is set. -/
theorem exists_isSet_of_gaps {isSet : String → Except PolicyStoreError Bool}
    {gaps : List PolicyIssue} (hmail : mailOf policies = some after) (hsmtp : after.selectsSmtp)
    (h : mailTransportGaps policies isSet = .ok gaps) : ∃ set, isSet PASSWORD_PATH = .ok set := by
  have hmock : ¬ after.provider = some (.str "mock") := by
    rw [show after.provider = some (.str "smtp") from hsmtp]
    decide
  rw [mailTransportGaps, hmail] at h
  simp only [if_neg hmock, if_pos hsmtp, bind_eq_ok_iff] at h
  obtain ⟨set, hset, -⟩ := h
  exact ⟨set, hset⟩

/-- An update that the rule lets through with smtp selected, and without a password, changes nothing
of mail, or nothing of the destination where a password stays set. -/
theorem alike_or_settled_of_rule
    (h : createMailTransportRule toLowerCase allowedHosts policies context = .ok [])
    (hbefore : mailOf context.previous = some before) (hafter : mailOf policies = some after)
    (hsmtp : after.selectsSmtp) (hwritten : context.written PASSWORD_PATH ≠ some .set) :
    (∃ b a, context.previous.at? ["mail"] = some b ∧ policies.at? ["mail"] = some a ∧
        deepEqual b a = true) ∨
      ∃ set, context.isSet PASSWORD_PATH = .ok set ∧
        (set = true → smtpDestinationChanges before after = []) := by
  rw [createMailTransportRule, hafter] at h
  cases halone : leavesMailAlone policies context with
  | true =>
    left
    rw [leavesMailAlone, Bool.and_eq_true] at halone
    obtain ⟨-, halike⟩ := halone
    split at halike
    · rename_i b a hb ha
      exact ⟨b, a, hb, ha, halike⟩
    · exact absurd halike Bool.false_ne_true
  | false =>
    right
    simp only [halone, Bool.false_eq_true, if_false, bind_eq_ok_iff, hbefore, Option.map_some,
      Option.getD_some] at h
    obtain ⟨previousGaps, -, gaps, hgaps, carried, hcarried, h⟩ := h
    obtain ⟨set, hset⟩ := exists_isSet_of_gaps hafter hsmtp hgaps
    refine ⟨set, hset, ?_⟩
    rintro rfl
    by_contra hchanged
    -- the password is carried over, so the issue is one of those, of which there is none
    rw [carriesPassword, if_pos ⟨hchanged, hwritten⟩, hset] at hcarried
    obtain rfl : true = carried := Except.ok.inj hcarried
    have hnone := Except.ok.inj h
    simp only [List.append_eq_nil_iff] at hnone
    obtain ⟨⟨hissues, hagain⟩, -⟩ := hnone
    rw [hissues] at hagain
    simp at hagain

end Rule

end QAuth.Policy
