import QAuth.Events.Position
import QAuth.Foundation.Base64Url
import QAuth.Foundation.Decimal
import QAuth.Foundation.Guards
import QAuth.Foundation.UuidText

/-!
# Positions as text

A reader keeps its place in a stream as an opaque text: the realm, the transaction id and the
sequence number, behind the name of the layout, in base64url. Only the exact text that is written
for a position is read, so one position has one spelling.
-/

namespace QAuth.Events

open Guards

/-- Why a position or a read is refused. -/
inductive EventReadError
  /-- An `EventPositionError`. -/
  | position (message : String)
  /-- A `TypeError`. -/
  | type (message : String)
  /-- An event stored in a layout that this release cannot read. -/
  | unreadable (id schemaVersion : ℕ)
  deriving DecidableEq

/-- An encoded position. -/
abbrev EventPosition := List Char

/-- What a position holds. -/
structure EventPositionParts where
  /-- The realm whose stream the position is in, lower case. -/
  realmId : List Char
  /-- The writing transaction of the last event read, or a horizon. -/
  xid : ℕ
  /-- The `seq` of the last event read; 0 before the first event of `xid`. -/
  seq : ℕ

/-- The place in the realm's stream. -/
def EventPositionParts.place (parts : EventPositionParts) : Position := ⟨parts.xid, parts.seq⟩

/-- The layout of the encoded text. -/
def LAYOUT : List Char := ['p', '1']

def XID_MAX : ℕ := 2 ^ 64 - 1

def SEQ_MAX : ℕ := 2 ^ 63 - 1

/-- Longer than any position this layout encodes. -/
def ENCODED_MAX_LENGTH : ℕ := 128

def checkParts (parts : EventPositionParts) : Except EventReadError Unit := do
  refuseIf (¬ UuidText.IsUuid parts.realmId)
    (.position "event position: the realm id is not a lower-case UUID")
  refuseIf (XID_MAX < parts.xid ∨ SEQ_MAX < parts.seq)
    (.position "event position: xid or seq is out of range")

/-- The text that is encoded. -/
def EventPositionParts.text (parts : EventPositionParts) : List Char :=
  LAYOUT ++ ':' :: (parts.realmId ++ ':' :: (Decimal.digits parts.xid ++ ':' ::
    Decimal.digits parts.seq))

/-- The bytes of a text of ASCII characters. -/
def bytesOf (text : List Char) : List UInt8 := text.map fun c ↦ UInt8.ofNat c.toNat

def encodeEventPosition (parts : EventPositionParts) : Except EventReadError EventPosition := do
  checkParts parts
  .ok (Base64Url.encode (bytesOf parts.text))

/-- Whether a text matches `0|[1-9][0-9]{0,max - 1}`. -/
def isDecimal (max : ℕ) : List Char → Bool
  | [] => false
  | c :: cs => (c == '0' && cs.isEmpty) ||
      (c != '0' && c.isDigit && cs.all Char.isDigit && cs.length < max)

/-- What `DECODED_PATTERN` reads of some bytes. The pattern has ASCII characters only, so a byte
that begins no ASCII character is in no match. -/
def readParts (bytes : List UInt8) : Option EventPositionParts :=
  if bytes.all (· < 128) then
    match (bytes.map fun b ↦ Char.ofNat b.toNat).splitOnP (· == ':') with
    | [layout, realmId, xid, seq] =>
      if layout = LAYOUT ∧ UuidText.IsUuid realmId ∧ isDecimal 20 xid ∧ isDecimal 19 seq then
        some ⟨realmId, Nat.ofDigitChars 10 xid 0, Nat.ofDigitChars 10 seq 0⟩
      else none
    | _ => none
  else none

def decodeEventPosition (position : EventPosition) : Except EventReadError EventPositionParts := do
  refuseIf (position.length = 0 ∨ ENCODED_MAX_LENGTH < position.length ∨
      ¬ position.all Base64Url.isDigit)
    (.position "event position: not a position")
  let parts ← require (readParts (Base64Url.decode position))
    (.position "event position: not a position")
  checkParts parts
  let encoded ← encodeEventPosition parts
  refuseIf (encoded ≠ position) (.position "event position: not a position")
  .ok parts

/-- The position before the first event of a realm. -/
def eventStreamStart (realmId : List Char) : Except EventReadError EventPosition :=
  encodeEventPosition ⟨realmId, 0, 0⟩

/-- Order two positions of one realm: negative when `a` comes first. -/
def compareEventPositions (a b : EventPositionParts) : Except EventReadError ℤ := do
  refuseIf (a.realmId ≠ b.realmId)
    (.position "event position: positions of two realms have no order")
  if a.xid ≠ b.xid then .ok (if a.xid < b.xid then -1 else 1)
  else if a.seq ≠ b.seq then .ok (if a.seq < b.seq then -1 else 1)
  else .ok 0

variable {a b parts : EventPositionParts} {position : EventPosition}

/-- What a position holds is in range. -/
def EventPositionParts.InRange (parts : EventPositionParts) : Prop :=
  UuidText.IsUuid parts.realmId ∧ parts.xid ≤ XID_MAX ∧ parts.seq ≤ SEQ_MAX

theorem checkParts_eq_ok_iff {u : Unit} : checkParts parts = .ok u ↔ parts.InRange := by
  simp [checkParts, EventPositionParts.InRange]

theorem encodeEventPosition_eq_ok_iff : encodeEventPosition parts = .ok position ↔
    parts.InRange ∧ position = Base64Url.encode (bytesOf parts.text) := by
  simp only [encodeEventPosition, bind_eq_ok_iff, checkParts_eq_ok_iff, exists_const,
    Except.ok.injEq]
  exact and_congr_right fun _ ↦ eq_comm

theorem compareEventPositions_of_eq (h : a.realmId = b.realmId) :
    compareEventPositions a b =
      if a.xid ≠ b.xid then .ok (if a.xid < b.xid then -1 else 1)
      else if a.seq ≠ b.seq then .ok (if a.seq < b.seq then -1 else 1)
      else .ok 0 := by
  rw [compareEventPositions, refuseIf, if_neg (not_not_intro h)]
  rfl

theorem compareEventPositions_pos_iff (h : a.realmId = b.realmId) :
    ∃ i, compareEventPositions a b = .ok i ∧ (0 < i ↔ b.place < a.place) := by
  rw [compareEventPositions_of_eq h]
  simp only [Position.lt_iff, EventPositionParts.place]
  by_cases hxid : a.xid = b.xid
  · rw [if_neg (not_not_intro hxid)]
    by_cases hseq : a.seq = b.seq
    · exact ⟨0, if_neg (not_not_intro hseq), by omega⟩
    · refine ⟨_, if_pos hseq, ?_⟩
      split <;> omega
  · refine ⟨_, if_pos hxid, ?_⟩
    split <;> omega

/-! ### What is written is read -/

/-- A decimal number is read as one. -/
theorem isDecimal_digits {n max : ℕ} (hmax : 0 < max) (hn : n < 10 ^ max) :
    isDecimal max (Decimal.digits n) = true := by
  by_cases hn0 : n = 0
  · subst hn0
    rfl
  · obtain ⟨c, cs, hcons, hc⟩ := Decimal.exists_digits_eq_cons hn0
    have hlength : (Decimal.digits n).length ≤ max :=
      (Nat.length_toDigits_le_iff (by decide) hmax).mpr hn
    have hdigits := Decimal.digits_digits n
    rw [hcons] at hlength hdigits ⊢
    have hall : c.isDigit = true ∧ ∀ d ∈ cs, d.isDigit = true := List.forall_mem_cons.mp hdigits
    simp only [List.length_cons] at hlength
    simp [isDecimal, hc, hall.1, List.all_eq_true.mpr hall.2]
    omega

/-- ASCII characters are their bytes. -/
theorem charsOf_bytesOf {text : List Char} (h : ∀ c ∈ text, c.toNat < 128) :
    (bytesOf text).all (· < 128) = true ∧
      (bytesOf text).map (fun b ↦ Char.ofNat b.toNat) = text := by
  constructor
  · rw [List.all_eq_true]
    intro b hb
    obtain ⟨c, hc, rfl⟩ := List.mem_map.mp hb
    have := h c hc
    simp only [decide_eq_true_eq, UInt8.lt_iff_toNat_lt, UInt8.toNat_ofNat', UInt8.reduceToNat]
    omega
  · rw [bytesOf, List.map_map]
    refine (List.map_congr_left fun c hc ↦ ?_).trans (List.map_id _)
    have := h c hc
    have hmod : c.toNat % 2 ^ 8 = c.toNat := by omega
    rw [Function.comp_apply, UInt8.toNat_ofNat', hmod, Char.ofNat_toNat, id]

theorem isAscii_of_isDigit {c : Char} (h : c.isDigit = true) : c.toNat < 128 ∧ c ≠ ':' := by
  have hle : c.toNat ≤ 57 := by
    simp only [Char.isDigit, Bool.and_eq_true, decide_eq_true_eq] at h
    exact UInt32.le_iff_toNat_le.mp h.2
  refine ⟨by omega, ?_⟩
  rintro rfl
  exact absurd hle (by decide)

theorem isAscii_of_isHexDigit {c : Char} (h : UuidText.isHexDigit c = true) :
    c.toNat < 128 ∧ c ≠ ':' := by
  have key : ∀ c ∈ UuidText.hexDigits, c.toNat < 128 ∧ c ≠ ':' := by decide
  exact key c (List.contains_iff_mem.mp h)

theorem readParts_text (h : parts.InRange) : readParts (bytesOf parts.text) = some parts := by
  obtain ⟨hrealm, hxid, hseq⟩ := h
  have hrealmAscii : ∀ c ∈ parts.realmId, c.toNat < 128 ∧ c ≠ ':' := by
    intro c hc
    rcases UuidText.mem_of_isUuid hrealm hc with hc | rfl
    · exact isAscii_of_isHexDigit hc
    · decide
  have hdigits : ∀ n, ∀ c ∈ Decimal.digits n, c.toNat < 128 ∧ c ≠ ':' :=
    fun n c hc ↦ isAscii_of_isDigit (Decimal.digits_digits n c hc)
  have hlayout : ∀ c ∈ LAYOUT, c.toNat < 128 ∧ c ≠ ':' := by decide
  have hascii : ∀ c ∈ parts.text, c.toNat < 128 := by
    intro c hc
    simp only [EventPositionParts.text, List.mem_append, List.mem_cons] at hc
    rcases hc with hc | rfl | hc | rfl | hc | rfl | hc
    · exact (hlayout c hc).1
    · decide
    · exact (hrealmAscii c hc).1
    · decide
    · exact (hdigits _ c hc).1
    · decide
    · exact (hdigits _ c hc).1
  obtain ⟨hall, hchars⟩ := charsOf_bytesOf hascii
  have hpart : ∀ part : List Char, (∀ c ∈ part, c.toNat < 128 ∧ c ≠ ':') →
      ∀ c ∈ part, (c == ':') = false := fun part hpart c hc ↦ by simpa using (hpart c hc).2
  have hsplit : parts.text.splitOnP (· == ':') =
      [LAYOUT, parts.realmId, Decimal.digits parts.xid, Decimal.digits parts.seq] := by
    rw [EventPositionParts.text,
      List.splitOnP_append_cons_of_forall_mem (hpart _ hlayout) ':' (by rfl),
      List.splitOnP_append_cons_of_forall_mem (hpart _ hrealmAscii) ':' (by rfl),
      List.splitOnP_append_cons_of_forall_mem (hpart _ (hdigits _)) ':' (by rfl),
      List.splitOnP_eq_singleton (hpart _ (hdigits _))]
  have hxidDecimal : isDecimal 20 (Decimal.digits parts.xid) = true :=
    isDecimal_digits (by decide) (by rw [XID_MAX] at hxid; omega)
  have hseqDecimal : isDecimal 19 (Decimal.digits parts.seq) = true :=
    isDecimal_digits (by decide) (by rw [SEQ_MAX] at hseq; omega)
  rw [readParts, if_pos hall, hchars, hsplit]
  simp only [hrealm, hxidDecimal, hseqDecimal, and_self, if_true]
  rw [Decimal.digits, Decimal.digits, Nat.ofDigitChars_ten_toDigits, Nat.ofDigitChars_ten_toDigits]

/-- The longest text is well below the limit. -/
theorem length_text_le (h : parts.InRange) : parts.text.length ≤ 80 := by
  obtain ⟨hrealm, hxid, hseq⟩ := h
  have hxidLength : (Decimal.digits parts.xid).length ≤ 20 :=
    (Nat.length_toDigits_le_iff (by decide) (by decide)).mpr (by rw [XID_MAX] at hxid; omega)
  have hseqLength : (Decimal.digits parts.seq).length ≤ 19 :=
    (Nat.length_toDigits_le_iff (by decide) (by decide)).mpr (by rw [SEQ_MAX] at hseq; omega)
  simp only [EventPositionParts.text, List.length_append, List.length_cons,
    UuidText.length_of_isUuid hrealm, LAYOUT, List.length_nil]
  omega

/-- Exactly the texts that are written are read, each as what it was written for. -/
theorem decodeEventPosition_eq_ok_iff :
    decodeEventPosition position = .ok parts ↔ encodeEventPosition parts = .ok position := by
  simp only [decodeEventPosition, bind_eq_ok_iff, refuseIf_eq_ok_iff, require_eq_ok_iff,
    exists_const, not_or, not_not, Except.ok.injEq]
  constructor
  · rintro ⟨-, parts', -, -, -, encoded, hencode, rfl, rfl⟩
    exact hencode
  · intro hencode
    obtain ⟨hrange, hposition⟩ := encodeEventPosition_eq_ok_iff.mp hencode
    have hlength := length_text_le hrange
    have hbytes : (bytesOf parts.text).length = parts.text.length := List.length_map _
    refine ⟨⟨?_, ?_, ?_⟩, parts, ?_, (), checkParts_eq_ok_iff.mpr hrange, position, hencode, rfl,
      rfl⟩
    · have hpos : 0 < parts.text.length := by
        simp only [EventPositionParts.text, List.length_append, List.length_cons, LAYOUT]
        omega
      rw [hposition, Base64Url.length_encode, hbytes]
      omega
    · rw [hposition, Base64Url.length_encode, hbytes, ENCODED_MAX_LENGTH]
      omega
    · rw [hposition, List.all_eq_true]
      exact fun c hc ↦ Base64Url.isDigit_of_mem_encode hc
    · rw [hposition, Base64Url.decode_encode, readParts_text hrange]

end QAuth.Events
