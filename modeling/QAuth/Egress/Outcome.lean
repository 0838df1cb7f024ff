import QAuth.Egress.Frames
import QAuth.Foundation.Text

/-!
# Outcomes on the channel

What a fetch process tells the pool: how it writes the outcome of an exchange (`encodeOutcome` of
`exchange.ts`) and how the pool reads it (`parseFetchProcessFrame` of `process-pool.ts`). A string is
the list of its UTF-16 code units.
-/

namespace QAuth.Egress

/-- A string of the program, in UTF-16 code units. -/
abbrev JsString := List UInt16

/-- The code units of a text. -/
def units (text : String) : JsString := text.toList.flatMap Text.unitsOf

/-- Largest response head, in bytes. -/
def MAX_HEADER_BYTES : ℕ := 16 * 1024

/-- Response headers an exchange returns, at most. -/
def MAX_RESPONSE_HEADERS : ℕ := 100

/-- Longest response header name, in bytes. -/
def MAX_HEADER_NAME_BYTES : ℕ := 256

/-- Longest response header value, in bytes. -/
def MAX_HEADER_VALUE_BYTES : ℕ := 8 * 1024

/-- Longest redirect location, in bytes. -/
def MAX_LOCATION_BYTES : ℕ := 8 * 1024

/-- Longest failure message a fetch process sends, in bytes of UTF-8. -/
def MAX_FAILURE_MESSAGE_BYTES : ℕ := 2 * 1024

/-- The payload of a `secured` frame. -/
def SECURED_PAYLOAD_BYTES : ℕ := 4

/-- The largest payload of a `failure` frame. -/
def MAX_FAILURE_PAYLOAD_BYTES : ℕ := 4 + 1 + 2 + MAX_FAILURE_MESSAGE_BYTES

/-- The largest payload of a `response` frame without its body. -/
def MAX_RESPONSE_FIELDS_BYTES : ℕ :=
  4 + 2 + 2 + MAX_RESPONSE_HEADERS * 4 + MAX_HEADER_BYTES + 1 + 2 + MAX_LOCATION_BYTES

/-- The longest failure message taken from a fetch process. -/
def MAX_MESSAGE_LENGTH : ℕ := 512

/-! ### Outcomes -/

/-- Why an exchange did not complete. -/
inductive ExchangeFailureReason
  | timeout
  | network
  | size
  | busy
deriving DecidableEq

/-- The reasons a fetch process may give, each sent as its index. -/
def FETCH_PROCESS_FAILURE_REASONS : List ExchangeFailureReason := [.timeout, .network, .size]

/-- A record of headers. -/
@[ext] structure Headers where
  entries : List (JsString × JsString)
  nodup : (entries.map Prod.fst).Nodup

namespace Headers

instance : DecidableEq Headers := fun _ _ ↦ decidable_of_iff _ Headers.ext_iff.symm

def names (headers : Headers) : List JsString := headers.entries.map Prod.fst

def empty : Headers := ⟨[], List.nodup_nil⟩

/-- `headers[name] = value` on an object that has no such property. -/
def assign (headers : Headers) (name value : JsString) (h : name ∉ headers.names) : Headers :=
  -- the setter of `__proto__` takes no string
  if name = units "__proto__" then headers
  else
    ⟨headers.entries ++ [(name, value)], by
      rw [List.map_append]
      exact headers.nodup.append (List.nodup_singleton _) (by simpa [names] using h)⟩

end Headers

/-- The answer to an exchange, or why there is none. -/
inductive ExchangeOutcome
  | response (status : ℕ) (headers : Headers) (body : List UInt8) (location : Option JsString)
  | failed (reason : ExchangeFailureReason) (message : JsString)

/-- What the pool knows of the exchange that a fetch process runs. -/
structure ExchangeJob where
  hostname : JsString
  maxResponseBytes : ℕ
deriving DecidableEq

/-- Why a response head is beyond what an exchange returns. -/
def responseHeadProblem (headers : Headers) (location : Option JsString) : Option String :=
  let bytes := (headers.entries.map fun e ↦ e.1.length + e.2.length).sum
  if MAX_RESPONSE_HEADERS < headers.entries.length then
    some s!"the response has more than {MAX_RESPONSE_HEADERS} headers"
  else
    match headers.entries.findSome? fun e ↦
      if MAX_HEADER_NAME_BYTES < e.1.length then
        some s!"a response header name is longer than {MAX_HEADER_NAME_BYTES} bytes"
      else if MAX_HEADER_VALUE_BYTES < e.2.length then
        some s!"a response header value is longer than {MAX_HEADER_VALUE_BYTES} bytes"
      else none with
    | some problem => some problem
    | none =>
      if MAX_HEADER_BYTES < bytes then
        some s!"the response headers are larger than {MAX_HEADER_BYTES} bytes"
      else if (location.any fun l ↦ MAX_LOCATION_BYTES < l.length : Bool) then
        some s!"the redirect location is longer than {MAX_LOCATION_BYTES} bytes"
      else none

/-! ### Writing an outcome -/

/-- The bytes of a string in UTF-8. -/
def utf8 (text : JsString) : List UInt8 := (Text.charsOf text).flatMap String.utf8EncodeChar

/-- The end of the longest prefix of at most `finish` bytes that does not end in a character. -/
def boundary (bytes : List UInt8) : ℕ → ℕ
  | 0 => 0
  | finish + 1 =>
    if bytes.getD (finish + 1) 0 &&& 0xc0 = 0x80 then boundary bytes finish else finish + 1

/-- A text in UTF-8, cut at a character boundary. -/
def utf8Prefix (text : JsString) (maxBytes : ℕ) : List UInt8 :=
  let bytes := utf8 text
  if bytes.length ≤ maxBytes then bytes else bytes.take (boundary bytes maxBytes)

/-- `writeUInt16BE`, which throws where the number does not fit. -/
def writeUInt16BE (n : ℕ) : Option (List UInt8) :=
  if n < 65536 then some (Bytes.be 2 n) else none

def encodeString (s : JsString) : Option (List UInt8) := do
  let length ← writeUInt16BE s.length
  some (length ++ Bytes.latin1 s)

def encodeHeaders : List (JsString × JsString) → Option (List UInt8)
  | [] => some []
  | (name, value) :: entries => do
    let name ← encodeString name
    let value ← encodeString value
    let rest ← encodeHeaders entries
    some (name ++ value ++ rest)

/-- Whether there is a location, and it. -/
def encodeLocation : Option JsString → Option (List UInt8)
  | none => some [0]
  | some location => do
    let location ← encodeString location
    some (1 :: location)

/-- The fields of a response before its body. -/
def encodeFields (id : UInt32) (status : ℕ) (headers : Headers) (location : Option JsString) :
    Option (List UInt8) := do
  let status ← writeUInt16BE status
  let count ← writeUInt16BE headers.entries.length
  let headers ← encodeHeaders headers.entries
  let location ← encodeLocation location
  some (Bytes.be 4 id.toNat ++ status ++ count ++ headers ++ location)

/-- A fetch process's frame for the outcome of an exchange, unless it throws. -/
def encodeOutcome (id : UInt32) : ExchangeOutcome → Option (List (List UInt8))
  | .failed reason message => do
    let code ← FETCH_PROCESS_FAILURE_REASONS.idxOf? reason
    let message := utf8Prefix message MAX_FAILURE_MESSAGE_BYTES
    let length ← writeUInt16BE message.length
    encodeFrame FRAME.failure [Bytes.be 4 id.toNat ++ Bytes.be 1 code ++ length, message]
  | .response status headers body location => do
    let fields ← encodeFields id status headers location
    encodeFrame FRAME.response [fields, body]

/-! ### What a fetch process may send -/

/-- Where a fetch process is, as the pool sees it. -/
structure FetchProcessState where
  ready : Bool
  job : Option ExchangeJob
  secured : Bool

/-- The largest payload a frame of a type may carry now. -/
def fetchProcessFrameLimit (type : ℕ) (state : FetchProcessState) : Option ℕ :=
  if !state.ready then if type = FRAME.ready then some 0 else none
  else
    match state.job with
    | none => none
    | some job =>
      if type = FRAME.secured then if state.secured then none else some SECURED_PAYLOAD_BYTES
      else if type = FRAME.failure then some MAX_FAILURE_PAYLOAD_BYTES
      else if type = FRAME.response then
        if state.secured then
          some (min (MAX_RESPONSE_FIELDS_BYTES + job.maxResponseBytes) MAX_FRAME_PAYLOAD_BYTES)
        else none
      else none

/-! ### Reading a message -/

/-- What a fetch process sends about the exchange it runs. -/
inductive ExchangeMessage
  | secured (id : UInt32)
  | outcome (id : UInt32) (outcome : ExchangeOutcome)

/-- The characters of `\p{Cc}`, `\p{Cf}`, `\p{Zl}` and `\p{Zp}`. -/
def isControl (c : Char) : Bool :=
  [(0x00, 0x1F), (0x7F, 0x9F), (0xAD, 0xAD), (0x600, 0x605), (0x61C, 0x61C), (0x6DD, 0x6DD),
    (0x70F, 0x70F), (0x890, 0x891), (0x8E2, 0x8E2), (0x180E, 0x180E), (0x200B, 0x200F),
    (0x2028, 0x202E), (0x2060, 0x2064), (0x2066, 0x206F), (0xFEFF, 0xFEFF), (0xFFF9, 0xFFFB),
    (0x110BD, 0x110BD), (0x110CD, 0x110CD), (0x13430, 0x1343F), (0x1BCA0, 0x1BCA3),
    (0x1D173, 0x1D17A), (0xE0001, 0xE0001), (0xE0020, 0xE007F)].any fun r : ℕ × ℕ ↦
      r.1 ≤ c.toNat && c.toNat ≤ r.2

/-- The text with each run of control characters as one blank. -/
def replaceControls : List Char → List Char
  | [] => []
  | c :: text =>
    if isControl c then
      match text with
      | [] => [' ']
      | d :: _ => if isControl d then replaceControls text else ' ' :: replaceControls text
    else c :: replaceControls text

/-- `trimEnd`. -/
def trimEnd (text : List Char) : List Char := (text.reverse.dropWhile Text.isSpace).reverse

/-- Strict UTF-8, without a byte order mark at its start. -/
def decodeUtf8 (bytes : List UInt8) : Option (List Char) := do
  let chars ← bytes.toByteArray.utf8Decode?
  some (if chars.toList.head? = some '\uFEFF' then chars.toList.tail else chars.toList)

/-- What the message of a failure begins with. -/
def failurePrefix (job : ExchangeJob) : JsString :=
  units "egress to " ++ job.hostname ++ units " failed: "

def failureLine (text : List Char) : JsString :=
  ((trimEnd (replaceControls text)).flatMap Text.unitsOf).take MAX_MESSAGE_LENGTH

/-- The number in the first two bytes. -/
def readUInt16BE (bytes : List UInt8) : ℕ := Der.ofBytes (bytes.take 2)

def parseFailure (payload : List UInt8) (id : UInt32) (job : ExchangeJob) : Option ExchangeMessage :=
  if payload.length < 7 then none
  else
    let code := (payload.getD 4 0).toNat
    let length := readUInt16BE (payload.drop 5)
    if FETCH_PROCESS_FAILURE_REASONS.length ≤ code then none
    else if MAX_FAILURE_MESSAGE_BYTES < length ∨ payload.length ≠ 7 + length then none
    else do
      let text ← decodeUtf8 (payload.drop 7)
      let reason ← FETCH_PROCESS_FAILURE_REASONS[code]?
      some (.outcome id (.failed reason
        (if failurePrefix job <+: text.flatMap Text.unitsOf then failureLine text
        else failurePrefix job ++ units "the fetch process gave no reason")))

/-- `toLowerCase` of a string of Latin-1. -/
def toLowerCase (s : JsString) : JsString :=
  s.map fun u ↦ if (0x41 ≤ u ∧ u ≤ 0x5A) ∨ (0xC0 ≤ u ∧ u ≤ 0xDE ∧ u ≠ 0xD7) then u + 32 else u

/-- A code unit of an HTTP token. -/
def isTokenUnit (u : UInt16) : Bool :=
  (0x61 ≤ u && u ≤ 0x7A) || (0x41 ≤ u && u ≤ 0x5A) || (0x30 ≤ u && u ≤ 0x39) ||
    u ∈ units "^_\x60-!#$%&'*+.|~"

/-- `validateHeaderName` of `node:http`, where it does not throw. -/
def validateHeaderName (name : JsString) : Bool := name ≠ [] && name.all isTokenUnit

/-- A code unit of a header value. -/
def isValueUnit (u : UInt16) : Bool :=
  u = 0x09 || (0x20 ≤ u && u ≤ 0x7E) || (0x80 ≤ u && u ≤ 0xFF)

/-- `validateHeaderValue` of `node:http`, where it does not throw. -/
def validateHeaderValue (value : JsString) : Bool := value.all isValueUnit

/-- A header that the pool takes: its name in lower case, and both valid. -/
def HeaderValid (e : JsString × JsString) : Prop :=
  toLowerCase e.1 = e.1 ∧ validateHeaderName e.1 = true ∧ validateHeaderValue e.2 = true

instance (e : JsString × JsString) : Decidable (HeaderValid e) :=
  inferInstanceAs (Decidable (_ ∧ _))

/-- A string of Latin-1 after its length, where it is within a bound, and what is left. -/
def readString (bound : ℕ) (rest : List UInt8) : Option (JsString × List UInt8) :=
  if rest.length < 2 then none
  else
    let length := readUInt16BE rest
    let rest := rest.drop 2
    if bound < length ∨ rest.length < length then none
    else some (Bytes.ofLatin1 (rest.take length), rest.drop length)

/-- The headers of a response, and what is left. -/
def parseHeaders : ℕ → List UInt8 → Headers → ℕ → Option (Headers × List UInt8)
  | 0, rest, headers, _ => some (headers, rest)
  | count + 1, rest, headers, headerBytes => do
    let (name, rest) ← readString MAX_HEADER_NAME_BYTES rest
    let (value, rest) ← readString MAX_HEADER_VALUE_BYTES rest
    let headerBytes := headerBytes + (name.length + value.length)
    if MAX_HEADER_BYTES < headerBytes then none
    else if hname : name ∈ headers.names then none
    else if HeaderValid (name, value) then
      parseHeaders count rest (headers.assign name value hname) headerBytes
    else none

/-- The location of a response, and what is left. -/
def parseLocation (rest : List UInt8) : Option (Option JsString × List UInt8) :=
  match rest with
  | 0 :: rest => some (none, rest)
  | 1 :: rest => do
    let (location, rest) ← readString MAX_LOCATION_BYTES rest
    if validateHeaderValue location then some (some location, rest) else none
  | _ => none

def parseResponse (payload : List UInt8) (id : UInt32) (job : ExchangeJob) :
    Option ExchangeMessage :=
  if payload.length < 8 then none
  else
    let status := readUInt16BE (payload.drop 4)
    let count := readUInt16BE (payload.drop 6)
    if status < 100 ∨ 999 < status ∨ MAX_RESPONSE_HEADERS < count then none
    else do
      let (headers, rest) ← parseHeaders count (payload.drop 8) .empty 0
      let (location, body) ← parseLocation rest
      if job.maxResponseBytes < body.length then none
      else some (.outcome id (.response status headers body location))

/-- Check a frame from the fetch process that runs a job. -/
def parseFetchProcessFrame (type : ℕ) (payload : List UInt8) (id : UInt32) (job : ExchangeJob) :
    Option ExchangeMessage :=
  if payload.length < 4 ∨ Der.ofBytes (payload.take 4) ≠ id.toNat then none
  else if type = FRAME.secured then
    if payload.length = SECURED_PAYLOAD_BYTES then some (.secured id) else none
  else if type = FRAME.failure then parseFailure payload id job
  else if type = FRAME.response then parseResponse payload id job
  else none

/-! ### What is accepted -/

/-- The length of a header, its name and its value together. -/
def headerLength (e : JsString × JsString) : ℕ := e.1.length + e.2.length

def HeaderBounded (e : JsString × JsString) : Prop :=
  e.1.length ≤ MAX_HEADER_NAME_BYTES ∧ e.2.length ≤ MAX_HEADER_VALUE_BYTES

theorem responseHeadProblem_eq_none_iff {headers : Headers} {location : Option JsString} :
    responseHeadProblem headers location = none ↔
      headers.entries.length ≤ MAX_RESPONSE_HEADERS ∧ (∀ e ∈ headers.entries, HeaderBounded e) ∧
        (headers.entries.map headerLength).sum ≤ MAX_HEADER_BYTES ∧
        ∀ l ∈ location, l.length ≤ MAX_LOCATION_BYTES := by
  have hlocation : (location.any fun l ↦ MAX_LOCATION_BYTES < l.length : Bool) = false ↔
      ∀ l ∈ location, l.length ≤ MAX_LOCATION_BYTES := by
    cases location <;> simp
  have hentries : (headers.entries.findSome? fun e ↦
      if MAX_HEADER_NAME_BYTES < e.1.length then
        some s!"a response header name is longer than {MAX_HEADER_NAME_BYTES} bytes"
      else if MAX_HEADER_VALUE_BYTES < e.2.length then
        some s!"a response header value is longer than {MAX_HEADER_VALUE_BYTES} bytes"
      else none) = none ↔ ∀ e ∈ headers.entries, HeaderBounded e := by
    rw [List.findSome?_eq_none_iff]
    refine forall₂_congr fun e _ ↦ ?_
    rw [HeaderBounded]
    split_ifs <;> simp_all
  have hsum : (headers.entries.map headerLength).sum =
      (headers.entries.map fun e ↦ e.1.length + e.2.length).sum := rfl
  rw [responseHeadProblem, ← hlocation, ← hentries, hsum]
  generalize headers.entries.findSome? _ = problem
  generalize (headers.entries.map fun e ↦ e.1.length + e.2.length).sum = bytes
  by_cases hcount : MAX_RESPONSE_HEADERS < headers.entries.length
  · simp [hcount, not_le.mpr hcount]
  · simp only [if_neg hcount, not_lt.mp hcount, true_and]
    cases problem with
    | some problem => simp
    | none =>
      split_ifs with hbytes hlong
      · simp [not_le.mpr hbytes]
      · simp [hlong]
      · simp [not_lt.mp hbytes, hlong]

/-- A header that the pool takes and that stays in its record. -/
def HeaderKept (e : JsString × JsString) : Prop := HeaderValid e ∧ e.1 ≠ units "__proto__"

instance (e : JsString × JsString) : Decidable (HeaderKept e) :=
  inferInstanceAs (Decidable (_ ∧ _))

/-- What the pool may take from a payload of some length while it runs exchange `id`. -/
inductive Accepted (job : ExchangeJob) (id : UInt32) (length : ℕ) : ExchangeMessage → Prop
  | secured (hlength : length = SECURED_PAYLOAD_BYTES) : Accepted job id length (.secured id)
  | failed {reason : ExchangeFailureReason} {message : JsString}
      (hreason : reason ∈ FETCH_PROCESS_FAILURE_REASONS)
      (hlength : length ≤ MAX_FAILURE_PAYLOAD_BYTES)
      (hmessage : message = failurePrefix job ++ units "the fetch process gave no reason" ∨
        ∃ text : List Char, (∀ c ∈ text, isControl c = false) ∧
          message = (text.flatMap Text.unitsOf).take MAX_MESSAGE_LENGTH) :
      Accepted job id length (.outcome id (.failed reason message))
  | response {status : ℕ} {headers : Headers} {body : List UInt8} {location : Option JsString}
      (hstatus : 100 ≤ status ∧ status ≤ 999)
      (hhead : responseHeadProblem headers location = none)
      (hheaders : ∀ e ∈ headers.entries, HeaderKept e)
      (hlocation : ∀ l ∈ location, validateHeaderValue l = true)
      (hbody : body.length ≤ job.maxResponseBytes)
      (hlength : length ≤ MAX_RESPONSE_FIELDS_BYTES + job.maxResponseBytes) :
      Accepted job id length (.outcome id (.response status headers body location))

/-- A text whose runs of control characters are blanks has none. -/
theorem isControl_of_mem_replaceControls {text : List Char} {c : Char}
    (h : c ∈ replaceControls text) : isControl c = false := by
  have hblank : isControl ' ' = false := by decide
  induction text using replaceControls.induct with
  | case1 => simp [replaceControls] at h
  | case2 d hd =>
    rw [replaceControls, if_pos hd, List.mem_singleton] at h
    rw [h, hblank]
  | case3 d hd e text he ih =>
    rw [replaceControls, if_pos hd, if_pos he] at h
    exact ih h
  | case4 d hd e text he ih =>
    rw [replaceControls, if_pos hd, if_neg he, List.mem_cons] at h
    rcases h with rfl | h
    · exact hblank
    · exact ih h
  | case5 d text hd ih =>
    rw [replaceControls.eq_def] at h
    simp only [hd, Bool.false_eq_true, if_false, List.mem_cons] at h
    rcases h with rfl | h
    · simpa using hd
    · exact ih h

theorem mem_of_mem_trimEnd {text : List Char} {c : Char} (h : c ∈ trimEnd text) : c ∈ text := by
  rw [trimEnd, List.mem_reverse] at h
  exact List.mem_reverse.mp ((List.dropWhile_sublist _).subset h)

theorem accepted_of_parseFailure {payload : List UInt8} {id : UInt32} {job : ExchangeJob}
    {message : ExchangeMessage} (h : parseFailure payload id job = some message) :
    Accepted job id payload.length message := by
  simp only [parseFailure, Option.ite_none_left_eq_some, Option.bind_eq_bind,
    Option.bind_eq_some_iff, Option.some.injEq, not_or, not_lt, not_not] at h
  obtain ⟨-, -, ⟨hmax, hlength⟩, text, -, reason, hreason, rfl⟩ := h
  refine .failed (List.mem_of_getElem? hreason) ?_ ?_
  · rw [hlength, MAX_FAILURE_PAYLOAD_BYTES]
    omega
  · by_cases hstarts : failurePrefix job <+: text.flatMap Text.unitsOf
    · rw [if_pos hstarts]
      exact .inr ⟨_, fun c hc ↦ isControl_of_mem_replaceControls (mem_of_mem_trimEnd hc), rfl⟩
    · rw [if_neg hstarts]
      exact .inl rfl

theorem readString_bounds {bound : ℕ} {input rest : List UInt8} {s : JsString}
    (h : readString bound input = some (s, rest)) :
    s.length ≤ bound ∧ input.length = 2 + s.length + rest.length := by
  simp only [readString, Option.ite_none_left_eq_some, not_lt, not_or, Option.some.injEq,
    Prod.mk.injEq] at h
  obtain ⟨htwo, ⟨hbound, hrest⟩, rfl, rfl⟩ := h
  simp only [List.length_drop] at hrest
  simp only [Bytes.ofLatin1, List.length_map, List.length_take, List.length_drop]
  omega

/-- Headers that were taken from `count` places, of `bytes` in all. -/
structure HeadersTaken (headers : Headers) (count bytes : ℕ) : Prop where
  length : headers.entries.length ≤ count
  sum : (headers.entries.map headerLength).sum ≤ bytes
  bounded : ∀ e ∈ headers.entries, HeaderBounded e
  kept : ∀ e ∈ headers.entries, HeaderKept e

theorem HeadersTaken.empty : HeadersTaken .empty 0 0 where
  length := le_rfl
  sum := le_rfl
  bounded := by simp [Headers.empty]
  kept := by simp [Headers.empty]

theorem HeadersTaken.assign {headers : Headers} {count bytes : ℕ}
    (H : HeadersTaken headers count bytes) {name value : JsString} (hname : name ∉ headers.names)
    (hbounded : HeaderBounded (name, value)) (hvalid : HeaderValid (name, value)) :
    HeadersTaken (headers.assign name value hname) (count + 1)
      (bytes + (name.length + value.length)) := by
  rw [Headers.assign]
  by_cases hproto : name = units "__proto__"
  · rw [if_pos hproto]
    exact ⟨Nat.le_succ_of_le H.length, Nat.le_add_right_of_le H.sum, H.bounded, H.kept⟩
  · rw [if_neg hproto]
    refine ⟨?_, ?_, ?_, ?_⟩
    · simpa using H.length
    · simpa [headerLength] using H.sum
    · intro e he
      rcases List.mem_append.mp he with he | he
      · exact H.bounded e he
      · rwa [List.mem_singleton.mp he]
    · intro e he
      rcases List.mem_append.mp he with he | he
      · exact H.kept e he
      · rw [List.mem_singleton.mp he]
        exact ⟨hvalid, hproto⟩

theorem parseHeaders_bounds {count : ℕ} {input rest : List UInt8} {headers headers' : Headers}
    {taken bytes : ℕ} (h : parseHeaders count input headers bytes = some (headers', rest))
    (H : HeadersTaken headers taken bytes) (hbytes : bytes ≤ MAX_HEADER_BYTES) :
    HeadersTaken headers' (taken + count) MAX_HEADER_BYTES ∧
      input.length + bytes ≤ MAX_HEADER_BYTES + 4 * count + rest.length := by
  induction count generalizing input headers taken bytes with
  | zero =>
    simp only [parseHeaders, Option.some.injEq, Prod.mk.injEq] at h
    obtain ⟨rfl, rfl⟩ := h
    exact ⟨⟨H.length, H.sum.trans hbytes, H.bounded, H.kept⟩, by omega⟩
  | succ count ih =>
    simp only [parseHeaders, Option.bind_eq_bind, Option.bind_eq_some_iff, Prod.exists,
      Option.ite_none_left_eq_some, not_lt, Option.dite_none_left_eq_some,
      Option.ite_none_right_eq_some] at h
    obtain ⟨name, rest₁, hname, value, rest₂, hvalue, hmax, hnew, hvalid, h⟩ := h
    have hname' := readString_bounds hname
    have hvalue' := readString_bounds hvalue
    obtain ⟨htaken, hlength⟩ := ih h (H.assign hnew ⟨hname'.1, hvalue'.1⟩ hvalid) hmax
    refine ⟨?_, by omega⟩
    rwa [Nat.add_assoc, Nat.add_comm 1] at htaken

theorem parseLocation_bounds {input rest : List UInt8} {location : Option JsString}
    (h : parseLocation input = some (location, rest)) :
    (∀ l ∈ location, l.length ≤ MAX_LOCATION_BYTES ∧ validateHeaderValue l = true) ∧
      input.length ≤ 1 + 2 + MAX_LOCATION_BYTES + rest.length := by
  rw [parseLocation.eq_def] at h
  split at h
  · simp only [Option.some.injEq, Prod.mk.injEq] at h
    obtain ⟨rfl, rfl⟩ := h
    refine ⟨by simp, ?_⟩
    rw [List.length_cons]
    omega
  · simp only [Option.bind_eq_bind, Option.bind_eq_some_iff, Prod.exists,
      Option.ite_none_right_eq_some, Option.some.injEq, Prod.mk.injEq] at h
    obtain ⟨l, rest', hread, hvalid, rfl, rfl⟩ := h
    have hbounds := readString_bounds hread
    refine ⟨fun l' hl' ↦ ?_, ?_⟩
    · obtain rfl := Option.mem_some.mp hl'
      exact ⟨hbounds.1, hvalid⟩
    · rw [List.length_cons]
      omega
  · exact absurd h (by simp)

theorem accepted_of_parseResponse {payload : List UInt8} {id : UInt32} {job : ExchangeJob}
    {message : ExchangeMessage} (h : parseResponse payload id job = some message) :
    Accepted job id payload.length message := by
  simp only [parseResponse, Option.ite_none_left_eq_some, Option.bind_eq_bind,
    Option.bind_eq_some_iff, Option.some.injEq, not_or, not_lt, Prod.exists] at h
  obtain ⟨height, ⟨hlow, hhigh, hcount⟩, headers, rest, hheaders, location, body, hlocation, hbody,
    rfl⟩ := h
  obtain ⟨htaken, hlength⟩ := parseHeaders_bounds hheaders .empty (Nat.zero_le _)
  obtain ⟨hbounded, hlength'⟩ := parseLocation_bounds hlocation
  rw [Nat.zero_add] at htaken
  refine .response ⟨hlow, hhigh⟩ ?_ htaken.kept (fun l hl ↦ (hbounded l hl).2) hbody ?_
  · rw [responseHeadProblem_eq_none_iff]
    exact ⟨htaken.length.trans hcount, htaken.bounded, htaken.sum, fun l hl ↦ (hbounded l hl).1⟩
  · rw [List.length_drop] at hlength
    rw [MAX_RESPONSE_FIELDS_BYTES]
    omega

/-- What the pool takes is within every bound, and about the exchange that runs. -/
theorem accepted_of_parse {type : ℕ} {payload : List UInt8} {id : UInt32} {job : ExchangeJob}
    {message : ExchangeMessage} (h : parseFetchProcessFrame type payload id job = some message) :
    Accepted job id payload.length message := by
  rw [parseFetchProcessFrame, Option.ite_none_left_eq_some] at h
  obtain ⟨-, h⟩ := h
  split_ifs at h with hsecured hlength hfailure hresponse
  · obtain rfl := Option.some.inj h
    exact .secured hlength
  · exact accepted_of_parseFailure h
  · exact accepted_of_parseResponse h

end QAuth.Egress
