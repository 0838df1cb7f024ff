import Mathlib.Data.List.Basic

/-!
# Base64url

Bytes as characters of the URL alphabet, six bits a character, without padding.
-/

namespace Base64Url

/-- The six-bit values of some bytes, the last one filled with zeros. -/
def sextets : List UInt8 → List ℕ
  | a :: b :: c :: rest =>
    a.toNat / 4 :: (a.toNat % 4 * 16 + b.toNat / 16) :: (b.toNat % 16 * 4 + c.toNat / 64) ::
      c.toNat % 64 :: sextets rest
  | [a, b] => [a.toNat / 4, a.toNat % 4 * 16 + b.toNat / 16, b.toNat % 16 * 4]
  | [a] => [a.toNat / 4, a.toNat % 4 * 16]
  | [] => []

/-- The URL alphabet. -/
def alphabet : List Char :=
  "ABCDEFGHIJKLMNOPQRSTUVWXYZabcdefghijklmnopqrstuvwxyz0123456789-_".toList

/-- The character of a six-bit value. -/
def digit (n : ℕ) : Char := alphabet.getD n '='

/-- The characters of some bytes. -/
def encode (bytes : List UInt8) : List Char := (sextets bytes).map digit

theorem sextets_lt {bytes : List UInt8} : ∀ n ∈ sextets bytes, n < 64 := by
  induction bytes using sextets.induct with
  | case1 a b c rest ih =>
    have ha := a.toNat_lt
    have hb := b.toNat_lt
    have hc := c.toNat_lt
    simp only [sextets, List.forall_mem_cons]
    exact ⟨by omega, by omega, by omega, by omega, ih⟩
  | case2 a b =>
    have ha := a.toNat_lt
    have hb := b.toNat_lt
    simp only [sextets, List.forall_mem_cons]
    exact ⟨by omega, by omega, by omega, nofun⟩
  | case3 a =>
    have ha := a.toNat_lt
    simp only [sextets, List.forall_mem_cons]
    exact ⟨by omega, by omega, nofun⟩
  | case4 => nofun

/-! ### Reading characters back -/

/-- Whether a character stands for six bits. -/
def isDigit (c : Char) : Bool := alphabet.contains c

/-- The six-bit value of a character of the alphabet. -/
def value (c : Char) : ℕ := alphabet.idxOf c

/-- The bytes of some six-bit values. A value left over alone makes no byte, and the bits left over
of the last byte are not looked at. -/
def ofSextets : List ℕ → List UInt8
  | w :: x :: y :: z :: rest =>
    UInt8.ofNat (w * 4 + x / 16) :: UInt8.ofNat (x % 16 * 16 + y / 4) ::
      UInt8.ofNat (y % 4 * 64 + z) :: ofSextets rest
  | [w, x, y] => [UInt8.ofNat (w * 4 + x / 16), UInt8.ofNat (x % 16 * 16 + y / 4)]
  | [w, x] => [UInt8.ofNat (w * 4 + x / 16)]
  | [_] | [] => []

/-- The bytes that some characters of the alphabet spell. -/
def decode (text : List Char) : List UInt8 := ofSextets (text.map value)

theorem value_digit {n : ℕ} (hn : n < 64) : value (digit n) = n := by
  have hread : ∀ i < 64, alphabet.idxOf (digit i) = i := by decide
  exact hread n hn

theorem isDigit_digit {n : ℕ} (hn : n < 64) : isDigit (digit n) = true := by
  have hread : ∀ i < 64, alphabet.contains (digit i) = true := by decide
  exact hread n hn

private theorem ofNat_eq {n : ℕ} {b : UInt8} (h : n = b.toNat) : UInt8.ofNat n = b := by
  rw [h, UInt8.ofNat_toNat]

theorem ofSextets_sextets (bytes : List UInt8) : ofSextets (sextets bytes) = bytes := by
  induction bytes using sextets.induct with
  | case1 a b c rest ih =>
    have hb := b.toNat_lt
    have hc := c.toNat_lt
    rw [sextets, ofSextets, ih, ofNat_eq (b := a) (by omega), ofNat_eq (b := b) (by omega),
      ofNat_eq (b := c) (by omega)]
  | case2 a b =>
    have hb := b.toNat_lt
    rw [sextets, ofSextets, ofNat_eq (b := a) (by omega), ofNat_eq (b := b) (by omega)]
  | case3 a =>
    rw [sextets, ofSextets, ofNat_eq (b := a) (by omega)]
  | case4 => rfl

/-- What is written is read back. -/
theorem decode_encode (bytes : List UInt8) : decode (encode bytes) = bytes := by
  have hvalues : (encode bytes).map value = sextets bytes := by
    rw [encode, List.map_map]
    refine (List.map_congr_left fun n hn ↦ ?_).trans (List.map_id _)
    exact value_digit (sextets_lt n hn)
  rw [decode, hvalues, ofSextets_sextets]

theorem isDigit_of_mem_encode {bytes : List UInt8} {c : Char} (hc : c ∈ encode bytes) :
    isDigit c = true := by
  obtain ⟨n, hn, rfl⟩ := List.mem_map.mp hc
  exact isDigit_digit (sextets_lt n hn)

/-- The text is a third longer than the bytes. -/
theorem length_encode (bytes : List UInt8) :
    (encode bytes).length = (4 * bytes.length + 2) / 3 := by
  rw [encode, List.length_map]
  induction bytes using sextets.induct with
  | case1 a b c rest ih =>
    simp only [sextets, List.length_cons, ih]
    omega
  | case2 a b => simp [sextets]
  | case3 a => simp [sextets]
  | case4 => simp [sextets]

/-- One text is that of one list of bytes. -/
theorem encode_injective : Function.Injective encode :=
  Function.LeftInverse.injective decode_encode

end Base64Url
