import QAuth.Foundation.Der

/-!
# Numbers in a fixed number of bytes
-/

namespace Bytes

open Der

/-- The last `k` bytes of a number, the highest first. -/
def be : ℕ → ℕ → List UInt8
  | 0, _ => []
  | k + 1, n => UInt8.ofNat (n / 256 ^ k) :: be k n

@[simp] theorem length_be (k n : ℕ) : (be k n).length = k := by
  induction k with
  | zero => rfl
  | succ k ih => rw [be, List.length_cons, ih]

theorem drop_be (k n i : ℕ) (rest : List UInt8) : (be k n ++ rest).drop (k + i) = rest.drop i := by
  rw [← List.drop_drop, List.drop_left' (length_be k n)]

theorem ofBytes_cons (b : UInt8) (bytes : List UInt8) :
    ofBytes (b :: bytes) = b.toNat * 256 ^ bytes.length + ofBytes bytes := by
  induction bytes using List.reverseRecOn with
  | nil => simp [ofBytes]
  | append_singleton bytes c ih =>
    rw [← List.cons_append, ofBytes_append, ih, ofBytes_append, List.length_append,
      List.length_singleton, Nat.pow_succ]
    ring

/-- The bytes of a number are read as the number, but for what does not fit. -/
theorem ofBytes_be_mod (k n : ℕ) : ofBytes (be k n) = n % 256 ^ k := by
  induction k with
  | zero => simp [be, ofBytes, Nat.mod_one]
  | succ k ih =>
    have hsplit : n % (256 ^ k * 256) = n % 256 ^ k + 256 ^ k * (n / 256 ^ k % 256) := Nat.mod_mul
    rw [be, ofBytes_cons, length_be, ih, UInt8.toNat_ofNat', pow_succ 256 k, hsplit,
      Nat.mul_comm (256 ^ k), Nat.add_comm]

/-- A number that fits is read back. -/
theorem ofBytes_be {k n : ℕ} (h : n < 256 ^ k) : ofBytes (be k n) = n := by
  rw [ofBytes_be_mod, Nat.mod_eq_of_lt h]

/-- Bytes after their length in four bytes, where it fits. -/
def withLength (bytes : List UInt8) : Option (List UInt8) :=
  if bytes.length < 2 ^ 32 then some (be 4 bytes.length ++ bytes) else none

/-- Bytes after their length are read up to their end. -/
theorem withLength_append_inj {as bs p q r s : List UInt8} (ha : withLength as = some p)
    (hb : withLength bs = some q) (h : p ++ r = q ++ s) : as = bs ∧ r = s := by
  obtain ⟨halt, ha⟩ := Option.ite_none_right_eq_some.mp ha
  obtain ⟨hblt, hb⟩ := Option.ite_none_right_eq_some.mp hb
  rw [← Option.some.inj ha, ← Option.some.inj hb, List.append_assoc, List.append_assoc] at h
  obtain ⟨hlength, hrest⟩ := List.append_inj h (by rw [length_be, length_be])
  have hread := congrArg ofBytes hlength
  rw [ofBytes_be (by omega), ofBytes_be (by omega)] at hread
  exact List.append_inj hrest hread

/-- Code units as one byte each, their low one. -/
def latin1 (units : List UInt16) : List UInt8 := units.map UInt16.toUInt8

/-- Bytes as one code unit each. -/
def ofLatin1 (bytes : List UInt8) : List UInt16 := bytes.map UInt8.toUInt16

@[simp] theorem length_latin1 (units : List UInt16) : (latin1 units).length = units.length :=
  List.length_map ..

/-- Code units are read back if and only if each is a byte. -/
theorem ofLatin1_latin1_iff {units : List UInt16} :
    ofLatin1 (latin1 units) = units ↔ ∀ u ∈ units, u < 256 := by
  induction units with
  | nil => simp [ofLatin1, latin1]
  | cons u units ih =>
    have hu : u.toUInt8.toUInt16 = u ↔ u < 256 := by
      rw [← UInt16.toNat_inj, UInt16.lt_iff_toNat_lt]
      simp only [UInt8.toNat_toUInt16, UInt16.toNat_toUInt8]
      constructor
      · intro h
        rw [← h]
        exact Nat.mod_lt _ (by decide)
      · intro h
        exact Nat.mod_eq_of_lt h
    rw [List.forall_mem_cons, ← ih, ← hu]
    simp [ofLatin1, latin1]

/-! ### Numbers of any length -/

/-- How many zero bytes stand first. -/
def leadingZeros (bytes : List UInt8) : ℕ := (bytes.takeWhile (· = 0)).length

theorem ofBytes_lt (bytes : List UInt8) : ofBytes bytes < 256 ^ bytes.length := by
  induction bytes using List.reverseRecOn with
  | nil => simp [ofBytes]
  | append_singleton bytes b ih =>
    have hb := b.toNat_lt
    rw [ofBytes_append, List.length_append, List.length_singleton, Nat.pow_succ]
    omega

/-- Bytes of one length are told by their number. -/
theorem eq_of_ofBytes_eq {as bs : List UInt8} (hlength : as.length = bs.length)
    (h : ofBytes as = ofBytes bs) : as = bs := by
  induction as using List.reverseRecOn generalizing bs with
  | nil => exact (List.length_eq_zero_iff.mp hlength.symm).symm
  | append_singleton as a ih =>
    obtain rfl | ⟨bs, b, rfl⟩ := bs.eq_nil_or_concat
    · simp at hlength
    · rw [List.concat_eq_append] at hlength h ⊢
      have ha := a.toNat_lt
      have hb := b.toNat_lt
      rw [ofBytes_append, ofBytes_append] at h
      have hlow : a = b := UInt8.toNat_inj.mp (by omega)
      have hlength' : as.length = bs.length := by simpa using hlength
      rw [ih hlength' (by omega), hlow]

/-- Zeros that stand first do not count. -/
theorem ofBytes_dropWhile (bytes : List UInt8) :
    ofBytes (bytes.dropWhile (· = 0)) = ofBytes bytes := by
  induction bytes with
  | nil => rfl
  | cons b bytes ih =>
    by_cases hb : b = 0
    · rw [List.dropWhile_cons_of_pos (by simpa using hb), ih, ofBytes_cons, hb]
      simp
    · rw [List.dropWhile_cons_of_neg (by simpa using hb)]

/-- A number of which no zero stands first fills its bytes. -/
theorem le_ofBytes_cons {b : UInt8} (hb : b ≠ 0) (bytes : List UInt8) :
    256 ^ bytes.length ≤ ofBytes (b :: bytes) := by
  have hpos : 0 < b.toNat := Nat.pos_of_ne_zero fun h ↦ hb (UInt8.toNat_inj.mp h)
  rw [ofBytes_cons]
  exact (Nat.le_mul_of_pos_left _ hpos).trans (Nat.le_add_right _ _)

theorem length_le_of_ofBytes_eq {as bs : List UInt8} (has : ∀ a ∈ as.head?, a ≠ 0)
    (h : ofBytes as = ofBytes bs) : as.length ≤ bs.length := by
  cases as with
  | nil => exact Nat.zero_le _
  | cons a as =>
    have hfills := le_ofBytes_cons (has a rfl) as
    rw [h] at hfills
    exact (Nat.pow_lt_pow_iff_right (by omega)).mp (hfills.trans_lt (ofBytes_lt bs))

theorem head_dropWhile_ne_zero (bytes : List UInt8) :
    ∀ b ∈ (bytes.dropWhile (· = 0)).head?, b ≠ 0 := by
  intro b hb
  have hstop := List.head?_dropWhile_not (· = 0) bytes
  rw [Option.mem_def.mp hb] at hstop
  exact of_decide_eq_false hstop

/-- Bytes are told by their number and the zeros that stand first. -/
theorem eq_iff_ofBytes_eq {as bs : List UInt8} :
    as = bs ↔ ofBytes as = ofBytes bs ∧ leadingZeros as = leadingZeros bs := by
  constructor
  · rintro rfl
    exact ⟨rfl, rfl⟩
  · rintro ⟨hvalue, hzeros⟩
    have hvalue' : ofBytes (as.dropWhile (· = 0)) = ofBytes (bs.dropWhile (· = 0)) := by
      rw [ofBytes_dropWhile, ofBytes_dropWhile, hvalue]
    have hdigits : as.dropWhile (· = 0) = bs.dropWhile (· = 0) := by
      refine eq_of_ofBytes_eq (le_antisymm ?_ ?_) hvalue'
      · exact length_le_of_ofBytes_eq (head_dropWhile_ne_zero as) hvalue'
      · exact length_le_of_ofBytes_eq (head_dropWhile_ne_zero bs) hvalue'.symm
    have hzeros' : as.takeWhile (· = 0) = bs.takeWhile (· = 0) := by
      have hall : ∀ bytes : List UInt8, bytes.takeWhile (· = 0) =
          List.replicate (leadingZeros bytes) 0 := fun bytes ↦
        List.eq_replicate_iff.mpr ⟨rfl, fun b hb ↦
          of_decide_eq_true (List.all_eq_true.mp (List.all_takeWhile (l := bytes)) b hb)⟩
      rw [hall as, hall bs, hzeros]
    rw [← List.takeWhile_append_dropWhile (p := (· = 0)) (l := as), hzeros', hdigits,
      List.takeWhile_append_dropWhile]

end Bytes
