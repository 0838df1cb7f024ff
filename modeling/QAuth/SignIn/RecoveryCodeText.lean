import Mathlib
import QAuth.Foundation.Guards
import QAuth.Foundation.Text

/-!
# Recovery codes as text

A recovery code is 80 random bits, written in base32 as four groups of four characters. What is
hashed is the code as it was typed, without its spaces and dashes and in lower case.
-/

namespace QAuth.SignIn

open Guards (bind_eq_ok_iff)

def RECOVERY_CODE_COUNT : ℕ := 10

def RECOVERY_CODE_BITS : ℕ := 80

def BASE32_ALPHABET : List Char := "abcdefghijklmnopqrstuvwxyz234567".toList

def RECOVERY_CODE_LENGTH : ℕ := RECOVERY_CODE_BITS / 5

/-! ### Base32 -/

/-- The character of five bits. -/
def base32Digit (n : ℕ) : Char := BASE32_ALPHABET.getD n 'a'

/-- The characters of the groups of five bits among the first `bits` of the buffer, and how many
bits are left. -/
def base32Groups (buffer : ℕ) : ℕ → List Char × ℕ
  | bits + 5 =>
    let rest := base32Groups buffer bits
    (base32Digit ((buffer >>> bits) &&& 31) :: rest.1, rest.2)
  | bits => ([], bits)

/-- What is written, the buffer, and how many of its bits are not written yet. -/
structure Base32State where
  out : List Char
  buffer : ℕ
  bits : ℕ

/-- One byte of the loop. -/
def Base32State.push (s : Base32State) (byte : UInt8) : Base32State :=
  let buffer := (s.buffer <<< 8) ||| byte.toNat
  let groups := base32Groups buffer (s.bits + 8)
  ⟨s.out ++ groups.1, buffer &&& ((1 <<< groups.2) - 1), groups.2⟩

def base32 (bytes : List UInt8) : List Char :=
  let s := bytes.foldl Base32State.push ⟨[], 0, 0⟩
  if 0 < s.bits then s.out ++ [base32Digit ((s.buffer <<< (5 - s.bits)) &&& 31)] else s.out

/-- The number that some characters stand for. -/
def base32Value (ds : List Char) : ℕ := ds.foldl (fun n d ↦ 32 * n + BASE32_ALPHABET.idxOf d) 0

/-- The number that some bytes stand for. -/
def bytesValue (bytes : List UInt8) : ℕ := bytes.foldl (fun n b ↦ 256 * n + b.toNat) 0

theorem idxOf_base32Digit {n : ℕ} (hn : n < 32) : BASE32_ALPHABET.idxOf (base32Digit n) = n := by
  have hread : ∀ i < 32, BASE32_ALPHABET.idxOf (base32Digit i) = i := by decide
  exact hread n hn

theorem base32Digit_mem {n : ℕ} (hn : n < 32) : base32Digit n ∈ BASE32_ALPHABET := by
  have hread : ∀ i < 32, base32Digit i ∈ BASE32_ALPHABET := by decide
  exact hread n hn

theorem foldl_value (ds : List Char) (n : ℕ) :
    ds.foldl (fun n d ↦ 32 * n + BASE32_ALPHABET.idxOf d) n =
      n * 32 ^ ds.length + base32Value ds := by
  induction ds generalizing n with
  | nil => simp [base32Value]
  | cons d ds ih =>
    rw [base32Value, List.foldl_cons, List.foldl_cons, ih, ih (32 * 0 + _), List.length_cons,
      pow_succ]
    ring

theorem base32Value_append (ds es : List Char) :
    base32Value (ds ++ es) = base32Value ds * 32 ^ es.length + base32Value es := by
  rw [base32Value, List.foldl_append, foldl_value]
  rfl

theorem and_31 (n : ℕ) : n &&& 31 = n % 32 := Nat.and_two_pow_sub_one_eq_mod n 5

/-- The groups cover the bits, up to fewer than five of them. -/
theorem length_base32Groups (buffer k : ℕ) :
    5 * (base32Groups buffer k).1.length + (base32Groups buffer k).2 = k ∧
      (base32Groups buffer k).2 < 5 := by
  induction k using base32Groups.induct buffer with
  | case1 bits ih =>
    rw [base32Groups, List.length_cons]
    dsimp only
    omega
  | case2 bits hbits =>
    rw [base32Groups.eq_2 _ _ hbits]
    refine ⟨by simp, ?_⟩
    by_contra hle
    exact hbits (bits - 5) (by omega)

/-- The groups stand for the bits they cover. -/
theorem base32Value_groups (buffer k : ℕ) :
    base32Value (base32Groups buffer k).1 =
      buffer % 2 ^ k / 2 ^ (base32Groups buffer k).2 := by
  induction k using base32Groups.induct buffer with
  | case1 bits ih =>
    obtain ⟨hlength, -⟩ := length_base32Groups buffer bits
    rw [base32Groups]
    dsimp only
    set g := base32Groups buffer bits with hg
    have hcons : base32Value (base32Digit ((buffer >>> bits) &&& 31) :: g.1) =
        buffer / 2 ^ bits % 32 * 32 ^ g.1.length + base32Value g.1 := by
      rw [base32Value, List.foldl_cons, foldl_value, and_31, Nat.shiftRight_eq_div_pow,
        idxOf_base32Digit (Nat.mod_lt _ (by omega))]
      ring
    have hpow : 2 ^ bits = 2 ^ g.2 * 32 ^ g.1.length := by
      rw [← hlength, pow_add, pow_mul]
      ring
    have hmod : buffer % 2 ^ (bits + 5) =
        2 ^ g.2 * (buffer / 2 ^ bits % 32 * 32 ^ g.1.length) + buffer % 2 ^ bits := by
      rw [pow_add, Nat.mod_mul, show 2 ^ 5 = 32 from rfl]
      nth_rewrite 2 [hpow]
      ring
    rw [hcons, ih, hmod, Nat.mul_add_div (Nat.two_pow_pos _)]
  | case2 bits hbits =>
    rw [base32Groups.eq_2 _ _ hbits, Nat.div_eq_of_lt (Nat.mod_lt _ (Nat.two_pow_pos _))]
    rfl

theorem base32Groups_mem (buffer k : ℕ) :
    ∀ d ∈ (base32Groups buffer k).1, d ∈ BASE32_ALPHABET := by
  induction k using base32Groups.induct buffer with
  | case1 bits ih =>
    rw [base32Groups]
    refine List.forall_mem_cons.mpr ⟨?_, ih⟩
    rw [and_31]
    exact base32Digit_mem (Nat.mod_lt _ (by omega))
  | case2 bits hbits =>
    rw [base32Groups.eq_2 _ _ hbits]
    nofun

/-- What is written and what is left are the bytes read so far. -/
structure Base32State.Reads (s : Base32State) (bytes : List UInt8) : Prop where
  value : base32Value s.out * 2 ^ s.bits + s.buffer = bytesValue bytes
  length : 5 * s.out.length + s.bits = 8 * bytes.length
  bits : s.bits < 5
  buffer : s.buffer < 2 ^ s.bits
  out : ∀ d ∈ s.out, d ∈ BASE32_ALPHABET

theorem Base32State.Reads.push {s : Base32State} {bytes : List UInt8} (h : s.Reads bytes)
    (byte : UInt8) : (s.push byte).Reads (bytes ++ [byte]) := by
  have hbyte : byte.toNat < 2 ^ 8 := byte.toNat_lt
  have hbuffer : (s.buffer <<< 8) ||| byte.toNat = s.buffer * 256 + byte.toNat := by
    rw [← Nat.shiftLeft_add_eq_or_of_lt hbyte, Nat.shiftLeft_eq]
  obtain ⟨hlength, hrest⟩ := length_base32Groups (s.buffer * 256 + byte.toNat) (s.bits + 8)
  have hvalue := base32Value_groups (s.buffer * 256 + byte.toNat) (s.bits + 8)
  have hmem := base32Groups_mem (s.buffer * 256 + byte.toNat) (s.bits + 8)
  have hmask : ∀ n k : ℕ, n &&& ((1 <<< k) - 1) = n % 2 ^ k := by
    intro n k
    rw [Nat.one_shiftLeft, Nat.and_two_pow_sub_one_eq_mod]
  have hlt : s.buffer * 256 + byte.toNat < 2 ^ (s.bits + 8) := by
    have hs := h.buffer
    rw [pow_add]
    omega
  rw [Base32State.push, hbuffer, hmask]
  set g := base32Groups (s.buffer * 256 + byte.toNat) (s.bits + 8) with hg
  rw [Nat.mod_eq_of_lt hlt] at hvalue
  refine ⟨?_, ?_, hrest, Nat.mod_lt _ (Nat.two_pow_pos _), ?_⟩
  · have hpow : 32 ^ g.1.length * 2 ^ g.2 = 2 ^ s.bits * 256 := by
      rw [show (32 : ℕ) = 2 ^ 5 from rfl, show (256 : ℕ) = 2 ^ 8 from rfl, ← pow_mul, ← pow_add,
        hlength, pow_add]
    show base32Value (s.out ++ g.1) * 2 ^ g.2 + (s.buffer * 256 + byte.toNat) % 2 ^ g.2 = _
    rw [base32Value_append, hvalue, bytesValue, List.foldl_append, List.foldl_cons, List.foldl_nil]
    change _ = 256 * bytesValue bytes + byte.toNat
    rw [← h.value, add_mul, mul_assoc, hpow, add_assoc, Nat.div_add_mod']
    ring
  · show 5 * (s.out ++ g.1).length + g.2 = 8 * (bytes ++ [byte]).length
    have hold := h.length
    simp only [List.length_append, List.length_singleton]
    omega
  · intro d hd
    rcases List.mem_append.mp hd with hd | hd
    · exact h.out d hd
    · exact hmem d hd

theorem foldl_push_reads (bytes : List UInt8) :
    (bytes.foldl Base32State.push ⟨[], 0, 0⟩).Reads bytes := by
  induction bytes using List.reverseRecOn with
  | nil => exact ⟨rfl, rfl, by decide, by decide, nofun⟩
  | append_singleton bytes byte ih =>
    rw [List.foldl_append]
    exact ih.push byte

/-- Bytes that fill their characters leave nothing in the buffer. -/
theorem base32_eq_out {bytes : List UInt8} (h : 5 ∣ 8 * bytes.length) :
    base32 bytes = (bytes.foldl Base32State.push ⟨[], 0, 0⟩).out ∧
      (bytes.foldl Base32State.push ⟨[], 0, 0⟩).bits = 0 := by
  obtain ⟨-, hlength, hbits, -, -⟩ := foldl_push_reads bytes
  have hzero : (bytes.foldl Base32State.push ⟨[], 0, 0⟩).bits = 0 := by omega
  exact ⟨if_neg (by omega), hzero⟩

theorem base32Value_base32 {bytes : List UInt8} (h : 5 ∣ 8 * bytes.length) :
    base32Value (base32 bytes) = bytesValue bytes := by
  obtain ⟨hout, hbits⟩ := base32_eq_out h
  obtain ⟨hvalue, -, -, hbuffer, -⟩ := foldl_push_reads bytes
  rw [hbits, pow_zero] at hvalue hbuffer
  rw [hout, ← hvalue]
  omega

theorem length_base32 {bytes : List UInt8} (h : 5 ∣ 8 * bytes.length) :
    5 * (base32 bytes).length = 8 * bytes.length := by
  obtain ⟨hout, hbits⟩ := base32_eq_out h
  have hlength := (foldl_push_reads bytes).length
  rw [hout]
  omega

theorem base32_mem {bytes : List UInt8} (h : 5 ∣ 8 * bytes.length) :
    ∀ d ∈ base32 bytes, d ∈ BASE32_ALPHABET := by
  rw [(base32_eq_out h).1]
  exact (foldl_push_reads bytes).out

theorem bytesValue_injective {as bs : List UInt8} (hlength : as.length = bs.length)
    (h : bytesValue as = bytesValue bs) : as = bs := by
  induction as using List.reverseRecOn generalizing bs with
  | nil => exact (List.length_eq_zero_iff.mp hlength.symm).symm
  | append_singleton as a ih =>
    rcases List.eq_nil_or_concat' bs with rfl | ⟨bs, b, rfl⟩
    · simp at hlength
    · simp only [List.length_append, List.length_singleton, Nat.add_right_cancel_iff] at hlength
      simp only [bytesValue, List.foldl_append, List.foldl_cons, List.foldl_nil] at h
      change 256 * bytesValue as + a.toNat = 256 * bytesValue bs + b.toNat at h
      have ha : a.toNat < 256 := a.toNat_lt
      have hb : b.toNat < 256 := b.toNat_lt
      have hvalue : bytesValue as = bytesValue bs := by omega
      rw [ih hlength hvalue, UInt8.toNat_inj.mp (show a.toNat = b.toNat by omega)]

theorem base32_injective {as bs : List UInt8} (has : 5 ∣ 8 * as.length)
    (hlength : as.length = bs.length) (h : base32 as = base32 bs) : as = bs := by
  refine bytesValue_injective hlength ?_
  rw [← base32Value_base32 has, h, base32Value_base32 (by rwa [← hlength])]

/-! ### Codes as they are shown -/

/-- The groups of a code, joined by dashes. -/
def shownCode (raw : List Char) : List Char :=
  ['-'].intercalate ([0, 4, 8, 12].map fun i ↦ (raw.drop i).take 4)

/-- The code of what the source of random bytes gave. -/
def generateRecoveryCode (bytes : List UInt8) : Except String (List Char) :=
  if bytes.length ≠ RECOVERY_CODE_BITS / 8 then .error "recovery codes: short random"
  else .ok (shownCode (base32 bytes))

/-- The loop of `generateRecoveryCodeSet`, with so many draws left. -/
def drawCodes (random : ℕ → List UInt8) : ℕ → List (List Char) → Except String (List (List Char))
  | 0, codes =>
    if codes.length < RECOVERY_CODE_COUNT then .error "recovery codes: the source repeats"
    else .ok codes
  | n + 1, codes =>
    if codes.length < RECOVERY_CODE_COUNT then do
      let code ← generateRecoveryCode (random (RECOVERY_CODE_COUNT * 2 - (n + 1)))
      drawCodes random n (if code ∈ codes then codes else codes ++ [code])
    else .ok codes

/-- A set of codes, `random i` being what the source gave at the `i`th draw. -/
def generateRecoveryCodeSet (random : ℕ → List UInt8) : Except String (List (List Char)) :=
  drawCodes random (RECOVERY_CODE_COUNT * 2) []

/-- `[\s-]`. -/
def isSeparator (c : Char) : Bool := Text.isSpace c || c == '-'

/-- A code without its spaces and dashes, in lower case, `toLowerCase` being that of the language. -/
def normalizeRecoveryCode (toLowerCase : List Char → List Char) (typed : String) :
    Option (List Char) :=
  if 64 < Text.utf16Length typed then none
  else
    let normalized := toLowerCase (typed.toList.filter (!isSeparator ·))
    if normalized.length = RECOVERY_CODE_LENGTH ∧ normalized.all BASE32_ALPHABET.contains then
      some normalized
    else none

/-- The characters of a text of ASCII characters in lower case. -/
def LowersAscii (toLowerCase : List Char → List Char) : Prop :=
  ∀ s : List Char, (∀ c ∈ s, c.toNat < 128) → toLowerCase s = s.map Char.toLower

/-- The text is the code, in any letter case and with any spaces and dashes. -/
def IsTyping (typed code : List Char) : Prop :=
  (typed.filter (!isSeparator ·)).map Char.toLower = code.filter (!isSeparator ·)

/-- What a code is before it is shown. -/
structure IsRaw (raw : List Char) : Prop where
  length : raw.length = RECOVERY_CODE_LENGTH
  mem : ∀ c ∈ raw, c ∈ BASE32_ALPHABET

theorem isRaw_base32 {bytes : List UInt8} (h : bytes.length = RECOVERY_CODE_BITS / 8) :
    IsRaw (base32 bytes) := by
  have hfull : 5 ∣ 8 * bytes.length := by
    rw [h]
    decide
  refine ⟨?_, base32_mem hfull⟩
  have hlength := length_base32 hfull
  rw [h, RECOVERY_CODE_BITS] at hlength
  rw [RECOVERY_CODE_LENGTH, RECOVERY_CODE_BITS]
  omega

theorem not_isSeparator {c : Char} (h : c ∈ BASE32_ALPHABET) : isSeparator c = false := by
  have hall : ∀ c ∈ BASE32_ALPHABET, isSeparator c = false := by decide
  exact hall c h

/-- A shown code is the code itself with dashes in between. -/
theorem filter_shownCode {raw : List Char} (h : IsRaw raw) :
    (shownCode raw).filter (!isSeparator ·) = raw := by
  have hkeep : ∀ l : List Char, (∀ c ∈ l, c ∈ raw) → l.filter (!isSeparator ·) = l := by
    intro l hl
    refine List.filter_eq_self.mpr fun c hc ↦ ?_
    rw [not_isSeparator (h.mem c (hl c hc))]
    rfl
  have hgroup : ∀ i, ((raw.drop i).take 4).filter (!isSeparator ·) = (raw.drop i).take 4 :=
    fun i ↦ hkeep _ fun c hc ↦ List.mem_of_mem_drop (List.mem_of_mem_take hc)
  have hdash : ['-'].filter (!isSeparator ·) = [] := by decide
  have hlast : (raw.drop 12).take 4 = raw.drop 12 := by
    refine List.take_of_length_le ?_
    rw [List.length_drop, h.length]
    decide
  have happend : shownCode raw = (raw.drop 0).take 4 ++ (['-'] ++ ((raw.drop 4).take 4 ++
      (['-'] ++ ((raw.drop 8).take 4 ++ (['-'] ++ (raw.drop 12).take 4))))) := by
    simp [shownCode, List.intercalate]
  rw [happend]
  simp only [List.filter_append, hgroup, hdash, List.nil_append]
  rw [hlast, ← List.drop_drop (i := 4) (j := 8) (l := raw), List.take_append_drop,
    ← List.drop_drop (i := 4) (j := 4) (l := raw), List.take_append_drop, List.drop_zero,
    List.take_append_drop]

/-- A character that is in the alphabet in lower case is an ASCII character. -/
theorem lt_of_toLower_mem {c : Char} (h : c.toLower ∈ BASE32_ALPHABET) : c.toNat < 128 := by
  have hall : ∀ c ∈ BASE32_ALPHABET, c.toNat < 128 := by decide
  rw [Char.toLower] at h
  split at h
  case isTrue hupper =>
    have hle : c.toNat ≤ 90 := UInt32.le_iff_toNat_le.mp hupper.2
    omega
  case isFalse => exact hall c h

theorem normalizeRecoveryCode_typed {toLowerCase : List Char → List Char}
    (hlower : LowersAscii toLowerCase) {typed : String} {raw : List Char} (h : IsRaw raw)
    (htyped : IsTyping typed.toList (shownCode raw)) (hlength : Text.utf16Length typed ≤ 64) :
    normalizeRecoveryCode toLowerCase typed = some raw := by
  rw [IsTyping, filter_shownCode h] at htyped
  have hascii : ∀ c ∈ typed.toList.filter (!isSeparator ·), c.toNat < 128 := by
    intro c hc
    refine lt_of_toLower_mem (h.mem _ ?_)
    rw [← htyped]
    exact List.mem_map_of_mem hc
  rw [normalizeRecoveryCode, if_neg (by omega)]
  dsimp only
  have hall : raw.all BASE32_ALPHABET.contains = true :=
    List.all_eq_true.mpr fun c hc ↦ List.contains_iff_mem.mpr (h.mem c hc)
  rw [hlower _ hascii, htyped, if_pos ⟨h.length, hall⟩]

theorem generateRecoveryCode_eq_ok_iff {bytes : List UInt8} {code : List Char} :
    generateRecoveryCode bytes = .ok code ↔
      bytes.length = RECOVERY_CODE_BITS / 8 ∧ shownCode (base32 bytes) = code := by
  rw [generateRecoveryCode]
  split
  case isTrue h => simp [h]
  case isFalse h => simp [not_not.mp h]

/-- Different random bytes give different codes. -/
theorem generateRecoveryCode_injective {as bs : List UInt8} {code : List Char}
    (ha : generateRecoveryCode as = .ok code) (hb : generateRecoveryCode bs = .ok code) :
    as = bs := by
  obtain ⟨has, rfl⟩ := generateRecoveryCode_eq_ok_iff.mp ha
  obtain ⟨hbs, heq⟩ := generateRecoveryCode_eq_ok_iff.mp hb
  have hraw := congrArg (List.filter (!isSeparator ·)) heq
  rw [filter_shownCode (isRaw_base32 has), filter_shownCode (isRaw_base32 hbs)] at hraw
  refine base32_injective ?_ (by rw [has, hbs]) hraw.symm
  rw [has]
  decide

/-- A set has as many codes as it should, all different, each of some random bytes. -/
theorem drawCodes_eq_ok {random : ℕ → List UInt8} {n : ℕ} {codes drawn : List (List Char)}
    (h : drawCodes random n codes = .ok drawn) (hle : codes.length ≤ RECOVERY_CODE_COUNT)
    (hnodup : codes.Nodup) (hcodes : ∀ code ∈ codes, ∃ bytes, generateRecoveryCode bytes = .ok code) :
    drawn.length = RECOVERY_CODE_COUNT ∧ drawn.Nodup ∧
      ∀ code ∈ drawn, ∃ bytes, generateRecoveryCode bytes = .ok code := by
  induction n generalizing codes with
  | zero =>
    rw [drawCodes] at h
    split at h <;> cases h
    exact ⟨by omega, hnodup, hcodes⟩
  | succ n ih =>
    rw [drawCodes] at h
    split at h
    case isFalse hfull =>
      cases h
      exact ⟨by omega, hnodup, hcodes⟩
    case isTrue hroom =>
      obtain ⟨code, hcode, h⟩ := bind_eq_ok_iff.mp h
      by_cases hmem : code ∈ codes
      · rw [if_pos hmem] at h
        exact ih h hle hnodup hcodes
      · rw [if_neg hmem] at h
        refine ih h ?_ ?_ ?_
        · rw [List.length_append, List.length_singleton]
          omega
        · exact List.nodup_append.mpr ⟨hnodup, List.nodup_singleton _, by
            rintro a ha b hb rfl
            exact hmem (List.mem_singleton.mp hb ▸ ha)⟩
        · intro code' hcode'
          rcases List.mem_append.mp hcode' with hcode' | hcode'
          · exact hcodes code' hcode'
          · exact ⟨_, List.mem_singleton.mp hcode' ▸ hcode⟩

theorem generateRecoveryCodeSet_eq_ok {random : ℕ → List UInt8} {codes : List (List Char)}
    (h : generateRecoveryCodeSet random = .ok codes) :
    codes.length = RECOVERY_CODE_COUNT ∧ codes.Nodup ∧
      ∀ code ∈ codes, ∃ bytes, generateRecoveryCode bytes = .ok code :=
  drawCodes_eq_ok h (Nat.zero_le _) List.nodup_nil nofun

end QAuth.SignIn
