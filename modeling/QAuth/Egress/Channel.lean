import QAuth.Egress.Outcome

/-!
# The channel between the pool and a fetch process

The pool reads what a fetch process writes in the same way however its stream is cut into chunks,
and takes nothing that is out of its bounds. A response comes back as it was written if and only if
it is `Framable`. A fetch process holds its answers to `responseHeadProblem` first, which does not
look at the status: the answer of a host with a status below 100 is written, and then refused.
-/

namespace QAuth.Egress

/-! ### Fields that were written -/

theorem readUInt16BE_be {n : ℕ} (h : n < 65536) (rest : List UInt8) :
    readUInt16BE (Bytes.be 2 n ++ rest) = n := by
  rw [readUInt16BE, List.take_left' (Bytes.length_be 2 n), Bytes.ofBytes_be (by simpa using h)]

theorem writeUInt16BE_of_lt {n : ℕ} (h : n < 65536) : writeUInt16BE n = some (Bytes.be 2 n) :=
  if_pos h

theorem encodeString_of_lt {s : JsString} (h : s.length < 65536) :
    encodeString s = some (Bytes.be 2 s.length ++ Bytes.latin1 s) := by
  rw [encodeString, writeUInt16BE_of_lt h]
  rfl

theorem readString_be {bound : ℕ} {s : JsString} (hbound : s.length ≤ bound)
    (hlength : s.length < 65536) (hbytes : ∀ u ∈ s, u < 256) (rest : List UInt8) :
    readString bound (Bytes.be 2 s.length ++ Bytes.latin1 s ++ rest) = some (s, rest) := by
  have hread : readUInt16BE (Bytes.be 2 s.length ++ Bytes.latin1 s ++ rest) = s.length := by
    rw [List.append_assoc, readUInt16BE_be hlength]
  have hdrop : (Bytes.be 2 s.length ++ Bytes.latin1 s ++ rest).drop 2 =
      Bytes.latin1 s ++ rest := by
    rw [List.append_assoc, List.drop_left' (Bytes.length_be 2 s.length)]
  rw [readString, if_neg (by simp; omega)]
  simp only [hread, hdrop]
  rw [if_neg (by simp; omega), List.take_left' (Bytes.length_latin1 s),
    List.drop_left' (Bytes.length_latin1 s), Bytes.ofLatin1_latin1_iff.mpr hbytes]

theorem lt_of_validateHeaderValue {value : JsString} (h : validateHeaderValue value = true) :
    ∀ u ∈ value, u < 256 := by
  intro u hu
  have hunit := List.all_eq_true.mp h u hu
  simp only [isValueUnit, Bool.or_eq_true, Bool.and_eq_true, decide_eq_true_eq,
    UInt16.le_iff_toNat_le, UInt16.lt_iff_toNat_lt, ← UInt16.toNat_inj] at hunit ⊢
  simp only [UInt16.reduceToNat] at hunit ⊢
  omega

theorem lt_of_validateHeaderName {name : JsString} (h : validateHeaderName name = true) :
    ∀ u ∈ name, u < 256 := by
  intro u hu
  rw [validateHeaderName, Bool.and_eq_true] at h
  have hunit := List.all_eq_true.mp h.2 u hu
  have hpunctuation : ∀ u ∈ units "^_\x60-!#$%&'*+.|~", u < 256 := by
    simp [units, Text.unitsOf]
  simp only [isTokenUnit, Bool.or_eq_true, Bool.and_eq_true, decide_eq_true_eq] at hunit
  rcases hunit with hunit | hunit
  · simp only [UInt16.le_iff_toNat_le, UInt16.lt_iff_toNat_lt, UInt16.reduceToNat] at hunit ⊢
    omega
  · exact hpunctuation u hunit

/-! ### Headers -/

/-- The bytes of headers that fit. -/
def headersBytes (entries : List (JsString × JsString)) : List UInt8 :=
  entries.flatMap fun e ↦
    (Bytes.be 2 e.1.length ++ Bytes.latin1 e.1) ++ (Bytes.be 2 e.2.length ++ Bytes.latin1 e.2)

theorem HeaderBounded.lt {e : JsString × JsString} (h : HeaderBounded e) :
    e.1.length < 65536 ∧ e.2.length < 65536 := by
  have hname := h.1
  have hvalue := h.2
  rw [MAX_HEADER_NAME_BYTES] at hname
  rw [MAX_HEADER_VALUE_BYTES] at hvalue
  omega

theorem encodeHeaders_of_bounded {entries : List (JsString × JsString)}
    (h : ∀ e ∈ entries, HeaderBounded e) : encodeHeaders entries = some (headersBytes entries) := by
  induction entries with
  | nil => rfl
  | cons e entries ih =>
    have hlt := (h e (List.mem_cons_self ..)).lt
    rw [encodeHeaders, encodeString_of_lt hlt.1, encodeString_of_lt hlt.2,
      ih fun e' he' ↦ h e' (List.mem_cons_of_mem _ he')]
    simp [headersBytes]

/-- Headers that the pool takes are read back. -/
theorem parseHeaders_headersBytes {entries : List (JsString × JsString)} {headers : Headers}
    {total : ℕ} (hbounded : ∀ e ∈ entries, HeaderBounded e) (hkept : ∀ e ∈ entries, HeaderKept e)
    (hnodup : (headers.names ++ entries.map Prod.fst).Nodup)
    (htotal : total + (entries.map headerLength).sum ≤ MAX_HEADER_BYTES) (rest : List UInt8) :
    ∃ headers' : Headers, headers'.entries = headers.entries ++ entries ∧
      parseHeaders entries.length (headersBytes entries ++ rest) headers total =
        some (headers', rest) := by
  induction entries generalizing headers total with
  | nil => exact ⟨headers, by simp, rfl⟩
  | cons e entries ih =>
    obtain ⟨name, value⟩ := e
    obtain ⟨⟨hlower, hname, hvalue⟩, hproto⟩ := hkept _ (List.mem_cons_self ..)
    have hbound := hbounded _ (List.mem_cons_self ..)
    simp only [List.map_cons, List.sum_cons] at htotal
    have hfirst : total + (name.length + value.length) ≤ MAX_HEADER_BYTES := by
      simp only [headerLength] at htotal
      omega
    have hnew : name ∉ headers.names := by
      intro hin
      exact (List.nodup_append.mp hnodup).2.2 name hin name (List.mem_cons_self ..) rfl
    have hassign : (headers.assign name value hnew).entries =
        headers.entries ++ [(name, value)] := by
      rw [Headers.assign, if_neg hproto]
    have hnames : ((headers.assign name value hnew).names ++ entries.map Prod.fst).Nodup := by
      simpa [Headers.names, hassign] using hnodup
    have hleft : total + (name.length + value.length) + (entries.map headerLength).sum ≤
        MAX_HEADER_BYTES := by
      simp only [headerLength] at htotal ⊢
      omega
    obtain ⟨headers', hentries, hparse⟩ := ih (fun e he ↦ hbounded e (List.mem_cons_of_mem _ he))
      (fun e he ↦ hkept e (List.mem_cons_of_mem _ he)) hnames hleft
    refine ⟨headers', by rw [hentries, hassign, List.append_assoc, List.singleton_append], ?_⟩
    have hsplit : headersBytes ((name, value) :: entries) ++ rest =
        (Bytes.be 2 name.length ++ Bytes.latin1 name) ++
          ((Bytes.be 2 value.length ++ Bytes.latin1 value) ++ (headersBytes entries ++ rest)) := by
      simp [headersBytes]
    rw [hsplit, List.length_cons, parseHeaders,
      readString_be hbound.1 hbound.lt.1 (lt_of_validateHeaderName hname)]
    simp only [Option.bind_eq_bind, Option.bind_some]
    rw [readString_be hbound.2 hbound.lt.2 (lt_of_validateHeaderValue hvalue)]
    simp only [Option.bind_some]
    rw [if_neg (not_lt.mpr hfirst), dif_neg hnew, if_pos ⟨hlower, hname, hvalue⟩, hparse]

/-! ### Locations -/

/-- The bytes of a location that fits. -/
def locationBytes : Option JsString → List UInt8
  | none => [0]
  | some location => 1 :: (Bytes.be 2 location.length ++ Bytes.latin1 location)

theorem encodeLocation_of_bounded {location : Option JsString}
    (h : ∀ l ∈ location, l.length ≤ MAX_LOCATION_BYTES) :
    encodeLocation location = some (locationBytes location) := by
  cases location with
  | none => rfl
  | some l =>
    have hlength := h l rfl
    rw [MAX_LOCATION_BYTES] at hlength
    rw [encodeLocation, encodeString_of_lt (by omega)]
    rfl

theorem parseLocation_locationBytes {location : Option JsString}
    (hbounded : ∀ l ∈ location, l.length ≤ MAX_LOCATION_BYTES)
    (hvalid : ∀ l ∈ location, validateHeaderValue l = true) (rest : List UInt8) :
    parseLocation (locationBytes location ++ rest) = some (location, rest) := by
  cases location with
  | none => rfl
  | some l =>
    have hlength := hbounded l rfl
    rw [MAX_LOCATION_BYTES] at hlength
    rw [locationBytes, List.cons_append, parseLocation, readString_be (hbounded l rfl) (by omega)
      (lt_of_validateHeaderValue (hvalid l rfl))]
    simp [hvalid l rfl]

/-! ### Responses -/

/-- The length of the fields of a response. -/
def fieldsLength (headers : Headers) (location : Option JsString) : ℕ :=
  4 + 2 + 2 + (headers.entries.map fun e ↦ 4 + headerLength e).sum + 1 +
    (location.elim 0 fun l ↦ 2 + l.length)

/-- A response that the pool takes as it was written. -/
structure Framable (status : ℕ) (headers : Headers) (body : List UInt8)
    (location : Option JsString) : Prop where
  hstatus : 100 ≤ status ∧ status ≤ 999
  kept : ∀ e ∈ headers.entries, HeaderKept e
  valid : ∀ l ∈ location, validateHeaderValue l = true
  size : fieldsLength headers location + body.length ≤ MAX_FRAME_PAYLOAD_BYTES

/-- The bytes of the fields of a response whose head is within the bounds. -/
def fieldsBytes (id : UInt32) (status : ℕ) (headers : Headers) (location : Option JsString) :
    List UInt8 :=
  Bytes.be 4 id.toNat ++ Bytes.be 2 status ++ Bytes.be 2 headers.entries.length ++
    headersBytes headers.entries ++ locationBytes location

theorem length_headersBytes (entries : List (JsString × JsString)) :
    (headersBytes entries).length = (entries.map fun e ↦ 4 + headerLength e).sum := by
  rw [headersBytes, List.length_flatMap]
  congr 1
  refine List.map_congr_left fun e _ ↦ ?_
  simp only [List.length_append, Bytes.length_be, Bytes.length_latin1, headerLength]
  omega

theorem length_fieldsBytes (id : UInt32) (status : ℕ) (headers : Headers)
    (location : Option JsString) :
    (fieldsBytes id status headers location).length = fieldsLength headers location := by
  have hlocation : (locationBytes location).length =
      1 + (location.elim 0 fun l ↦ 2 + l.length) := by
    cases location with
    | none => rfl
    | some l => simp [locationBytes, Nat.add_comm]
  simp only [fieldsBytes, fieldsLength, List.length_append, Bytes.length_be, length_headersBytes,
    hlocation]
  omega

section Head

variable {id : UInt32} {job : ExchangeJob} {status : ℕ} {headers : Headers} {body : List UInt8}
  {location : Option JsString}

theorem encodeFields_of_head (hhead : responseHeadProblem headers location = none) :
    encodeFields id status headers location =
      if status < 65536 then some (fieldsBytes id status headers location) else none := by
  obtain ⟨hcount, hbounded, -, hlocation⟩ := responseHeadProblem_eq_none_iff.mp hhead
  rw [MAX_RESPONSE_HEADERS] at hcount
  rw [encodeFields, writeUInt16BE, encodeHeaders_of_bounded hbounded,
    encodeLocation_of_bounded hlocation]
  by_cases hstatus : status < 65536
  · rw [if_pos hstatus, if_pos hstatus, writeUInt16BE_of_lt (by omega)]
    rfl
  · rw [if_neg hstatus, if_neg hstatus]
    rfl

/-- The payload of a response within the bounds is within the limit of its frame. -/
theorem fieldsLength_le (hhead : responseHeadProblem headers location = none) :
    fieldsLength headers location ≤ MAX_RESPONSE_FIELDS_BYTES := by
  obtain ⟨hcount, -, htotal, hlocation⟩ := responseHeadProblem_eq_none_iff.mp hhead
  have hsum : (headers.entries.map fun e ↦ 4 + headerLength e).sum =
      headers.entries.length * 4 + (headers.entries.map headerLength).sum := by
    rw [List.sum_map_add, List.map_const', List.sum_replicate, Nat.nsmul_eq_mul]
  have hlength : (location.elim 0 fun l ↦ 2 + l.length) ≤ 2 + MAX_LOCATION_BYTES := by
    cases location with
    | none => exact Nat.zero_le _
    | some l => exact Nat.add_le_add_left (hlocation l rfl) 2
  rw [fieldsLength, hsum, MAX_RESPONSE_FIELDS_BYTES]
  omega

/-- A framable response is taken as it was written. -/
theorem parse_fieldsBytes (hhead : responseHeadProblem headers location = none)
    (hbody : body.length ≤ job.maxResponseBytes) (h : Framable status headers body location) :
    parseFetchProcessFrame FRAME.response (fieldsBytes id status headers location ++ body) id job =
      some (.outcome id (.response status headers body location)) := by
  obtain ⟨hcount, hbounded, htotal, hlocation⟩ := responseHeadProblem_eq_none_iff.mp hhead
  have hcount' : headers.entries.length < 65536 := by
    rw [MAX_RESPONSE_HEADERS] at hcount
    omega
  have hstatus := h.hstatus
  have hnames : (Headers.empty.names ++ headers.entries.map Prod.fst).Nodup := by
    simpa [Headers.names, Headers.empty] using headers.nodup
  have htotal' : 0 + (headers.entries.map headerLength).sum ≤ MAX_HEADER_BYTES := by
    rwa [Nat.zero_add]
  obtain ⟨headers', hentries, hparse⟩ := parseHeaders_headersBytes hbounded h.kept hnames htotal'
    (locationBytes location ++ body)
  obtain rfl : headers' = headers := Headers.ext (by rw [hentries]; rfl)
  have hsplit : fieldsBytes id status headers' location ++ body = Bytes.be 4 id.toNat ++
      (Bytes.be 2 status ++ (Bytes.be 2 headers'.entries.length ++
        (headersBytes headers'.entries ++ (locationBytes location ++ body)))) := by
    simp only [fieldsBytes, List.append_assoc]
  have hid : Der.ofBytes (Bytes.be 4 id.toNat) = id.toNat := Bytes.ofBytes_be id.toNat_lt
  have hdrop : ∀ rest, (Bytes.be 4 id.toNat ++ rest).drop 4 = rest ∧
      (Bytes.be 4 id.toNat ++ rest).drop 6 = rest.drop 2 ∧
      (Bytes.be 4 id.toNat ++ rest).drop 8 = rest.drop (2 + 2) :=
    fun rest ↦ ⟨Bytes.drop_be 4 _ 0 rest, Bytes.drop_be 4 _ 2 rest, Bytes.drop_be 4 _ 4 rest⟩
  have hfields : ∀ n rest, (Bytes.be 2 n ++ rest).drop 2 = rest :=
    fun n rest ↦ Bytes.drop_be 2 n 0 rest
  rw [hsplit, parseFetchProcessFrame, List.take_left' (Bytes.length_be 4 _), hid,
    if_neg (by simp), if_neg (by decide), if_neg (by decide), if_pos rfl, parseResponse,
    if_neg (by simp; omega)]
  simp only [hdrop, Bytes.drop_be, hfields, readUInt16BE_be hcount',
    readUInt16BE_be (show status < 65536 by omega)]
  rw [if_neg (by omega), hparse]
  simp only [Option.bind_eq_bind, Option.bind_some]
  rw [parseLocation_locationBytes hlocation h.valid]
  simp only [Option.bind_some]
  rw [if_neg (not_lt.mpr hbody)]

end Head

/-! ### The channel -/

/-- What the pool's reader lets a process send in some state, and that it goes on after a frame. -/
def readFrames (state : FetchProcessState) : Answers where
  limit _ type := fetchProcessFrameLimit type state
  frame _ _ _ := true

/-- An outcome is written as one frame, which the reader hands over, being within its limit, and
which the pool takes as the same outcome. -/
def RoundTrips (id : UInt32) (job : ExchangeJob) (outcome : ExchangeOutcome) : Prop :=
  ∃ buffers type payload limit, encodeOutcome id outcome = some buffers ∧
    fetchProcessFrameLimit type ⟨true, some job, true⟩ = some limit ∧ payload.length ≤ limit ∧
    (push (readFrames ⟨true, some job, true⟩).rules .start buffers.flatten).run [] =
      (.start, [.frame type payload, .limit type]) ∧
    parseFetchProcessFrame type payload id job = some (.outcome id outcome)

section Channel

variable {job : ExchangeJob} {status : ℕ} {headers : Headers} {body : List UInt8}
  {location : Option JsString}

/-- A framable response comes back as it was written. -/
theorem Framable.roundTrips (h : Framable status headers body location)
    (hhead : responseHeadProblem headers location = none)
    (hbody : body.length ≤ job.maxResponseBytes) (id : UInt32) :
    RoundTrips id job (.response status headers body location) := by
  have hstatus := h.hstatus
  have hsize := h.size
  have hfields : encodeFields id status headers location =
      some (fieldsBytes id status headers location) := by
    rw [encodeFields_of_head hhead, if_pos (by omega)]
  have hpayload : ([fieldsBytes id status headers location, body].map List.length).sum =
      fieldsLength headers location + body.length := by
    simp [length_fieldsBytes]
  obtain ⟨buffers, hbuffers⟩ : ∃ buffers, encodeFrame FRAME.response
      [fieldsBytes id status headers location, body] = some buffers := by
    rw [encodeFrame]
    simp only [hpayload, if_neg (not_lt.mpr hsize)]
    exact ⟨_, rfl⟩
  have hlength : (fieldsBytes id status headers location ++ body).length ≤
      min (MAX_RESPONSE_FIELDS_BYTES + job.maxResponseBytes) MAX_FRAME_PAYLOAD_BYTES := by
    have hle := fieldsLength_le hhead
    rw [List.length_append, length_fieldsBytes]
    exact le_min (by omega) hsize
  refine ⟨buffers, FRAME.response, fieldsBytes id status headers location ++ body, _, ?_, rfl,
    hlength, ?_, parse_fieldsBytes hhead hbody h⟩
  · simp only [encodeOutcome, hfields, Option.bind_eq_bind, Option.bind_some, hbuffers]
  · have hpush : push (readFrames ⟨true, some job, true⟩).rules _ _ = _ :=
      push_encodeFrame (by decide) hbuffers []
    rw [List.append_nil] at hpush
    rw [hpush, Answers.run_limit]
    have hlimit : (readFrames ⟨true, some job, true⟩).limit [] FRAME.response =
        some (min (MAX_RESPONSE_FIELDS_BYTES + job.maxResponseBytes) MAX_FRAME_PAYLOAD_BYTES) := rfl
    have hflatten : [fieldsBytes id status headers location, body].flatten =
        fieldsBytes id status headers location ++ body := by simp
    rw [hlimit, hflatten]
    simp only [if_neg (not_lt.mpr hlength)]
    rw [Answers.run_frame, show (readFrames ⟨true, some job, true⟩).frame _ _ _ = true from rfl,
      if_pos rfl, push_nil]
    rfl

/-- What comes back is framable. -/
theorem RoundTrips.framable {id : UInt32}
    (h : RoundTrips id job (.response status headers body location))
    (hhead : responseHeadProblem headers location = none) :
    Framable status headers body location := by
  obtain ⟨buffers, type, payload, limit, hencode, -, -, -, hparse⟩ := h
  cases accepted_of_parse hparse with
  | response hstatus _ hheaders hlocation _ _ =>
    refine ⟨hstatus, hheaders, hlocation, ?_⟩
    simp only [encodeOutcome, encodeFields_of_head hhead, Option.bind_eq_bind,
      Option.bind_eq_some_iff, Option.ite_none_right_eq_some, Option.some.injEq] at hencode
    obtain ⟨_, ⟨-, rfl⟩, hframe⟩ := hencode
    simp only [encodeFrame, Option.ite_none_left_eq_some, not_lt] at hframe
    simpa [length_fieldsBytes] using hframe.1

end Channel

/-! ### Both ends -/

/-- However its stream is cut, the reader makes the same calls, and keeps nothing of a frame it
refuses. What the pool takes is within the bounds and about the exchange that runs. A response
whose head `responseHeadProblem` accepts comes back as it was written if and only if it is
framable. -/
theorem channel_carries_framable {m : Type → Type} [Monad m] [LawfulMonad m] (rules : FrameRules m)
    (reader : Reader) (chunks : List (List UInt8)) (A : Answers) (stream : List UInt8) (type : ℕ)
    (payload : List UInt8) (id : UInt32) (job : ExchangeJob) (status : ℕ) (headers : Headers)
    (body : List UInt8) (location : Option JsString)
    (hhead : responseHeadProblem headers location = none)
    (hbody : body.length ≤ job.maxResponseBytes) :
    chunks.foldlM (push rules) reader = push rules reader chunks.flatten ∧
      (∀ reader' calls, (push A.rules .start stream).run [] = (reader', calls) →
        ∀ t length oversized, .refuse t length oversized ∈ calls → reader'.kept = []) ∧
      (∀ message, parseFetchProcessFrame type payload id job = some message →
        Accepted job id payload.length message) ∧
      (RoundTrips id job (.response status headers body location) ↔
        Framable status headers body location) :=
  ⟨foldlM_push_eq reader chunks, fun _ _ hrun _ _ _ hrefused ↦ kept_of_refused A hrun hrefused,
    fun _ hparse ↦ accepted_of_parse hparse,
    fun h ↦ h.framable hhead, fun h ↦ h.roundTrips hhead hbody id⟩

/-- A response of status 200 with one header, on a stream that is cut within a header. -/
theorem channel_carries_framable_sample :
    RoundTrips 7 ⟨units "op.example", 100⟩
      (.response 200 (Headers.empty.assign (units "etag") (units "a1") (by decide)) [1, 2, 3]
        none) := by
  refine (channel_carries_framable (m := Id) ⟨fun _ ↦ none, fun _ _ ↦ true, fun _ _ _ ↦ ()⟩ .start
    [[4], [0, 0, 0]] (readFrames ⟨true, none, false⟩) [5, 0, 0, 0, 0] FRAME.secured [0, 0, 0, 7] 7
    ⟨units "op.example", 100⟩ 200 _ [1, 2, 3] none (by decide) (by decide)).2.2.2.mpr ?_
  exact ⟨by decide, by decide, by decide, by decide⟩

/-- A host that answers with status 99: the head is accepted and the body is within its bound, but
the pool refuses the frame. -/
theorem status_below_100_refused :
    responseHeadProblem .empty none = none ∧
      ([] : List UInt8).length ≤ (⟨units "op.example", 100⟩ : ExchangeJob).maxResponseBytes ∧
      ¬ RoundTrips 7 ⟨units "op.example", 100⟩ (.response 99 .empty [] none) := by
  refine ⟨by decide, by decide, fun h ↦ ?_⟩
  have hstatus := (h.framable (by decide)).hstatus
  omega

end QAuth.Egress
