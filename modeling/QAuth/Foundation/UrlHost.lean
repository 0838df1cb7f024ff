import Mathlib
import QAuth.Foundation.Text
import QAuth.Foundation.Words

/-!
# The hosts of a web address

The host parser of the URL standard, for the schemes that name a server, over the characters
that stand where a host is written. The tables of domain names in other scripts, and the
addresses in brackets, are those of a `Names`.
-/

namespace Url

/-- The tables that a host parser is given. -/
structure Names where
  /-- The domain name that bytes other than those of plain ASCII labels spell. -/
  idna : List UInt8 → Option (List Char)
  /-- The shortest form of the address that a text between brackets spells. -/
  ipv6 : List Char → Option (List Char)
  /-- Such a name is in small letters. -/
  idna_lower : ∀ {bytes : List UInt8} {name : List Char}, idna bytes = some name →
    ∀ c ∈ name, c.isUpper = false
  /-- The loopback address is its own shortest form. -/
  ipv6_loopback : ipv6 "::1".toList = some "::1".toList

/-- A text in small letters. -/
def lower (text : List Char) : List Char := text.map Char.toLower

/-! ### The name -/

def digit (base : ℕ) (c : Char) : Option ℕ :=
  let value :=
    if c.isDigit then some (c.toNat - 0x30)
    else if 'a' ≤ c.toLower ∧ c.toLower ≤ 'f' then some (c.toLower.toNat - 0x57)
    else none
  value.filter (· < base)

/-- Bytes, with those that escapes spell. -/
def percentDecode : List UInt8 → List UInt8
  | 0x25 :: a :: b :: rest =>
    match digit 16 (Char.ofNat a.toNat), digit 16 (Char.ofNat b.toNat) with
    | some m, some n => UInt8.ofNat (16 * m + n) :: percentDecode rest
    | _, _ => 0x25 :: percentDecode (a :: b :: rest)
  | byte :: rest => byte :: percentDecode rest
  | [] => []

def hasEncodedLabel (name : List Char) : Bool :=
  (name.splitOn '.').any fun label ↦ "xn--".toList.isPrefixOf label

/-- The characters that no domain name may have. -/
def isForbidden (c : Char) : Bool :=
  c ≤ ' ' || c = '\x7f' || "#/:<>?@[\\]^|%".toList.contains c

/-- The domain name that bytes spell. -/
def toAscii (names : Names) (bytes : List UInt8) : Option (List Char) :=
  let plain := lower (bytes.map fun byte ↦ Char.ofNat byte.toNat)
  let name :=
    if bytes.all (· < 0x80) ∧ hasEncodedLabel plain = false then some plain else names.idna bytes
  name.filter fun name ↦ !name.isEmpty && !name.any isForbidden

/-! ### The addresses of four bytes -/

/-- The number that digits spell; zero where there are none. -/
def number (base : ℕ) (digits : List Char) : Option ℕ :=
  digits.foldlM (fun n c ↦ (digit base c).map (base * n + ·)) 0

/-- The number that a part of an address spells, in base sixteen, eight or ten. -/
def ipv4Number : List Char → Option ℕ
  | [] => none
  | '0' :: c :: digits => if c = 'x' ∨ c = 'X' then number 16 digits else number 8 (c :: digits)
  | digits => number 10 digits

/-- The parts between dots; a dot at the end ends nothing. -/
def ipv4Parts (name : List Char) : List (List Char) :=
  let parts := name.splitOn '.'
  if 1 < parts.length ∧ parts.getLast? = some [] then parts.dropLast else parts

def endsInNumber (name : List Char) : Bool :=
  (ipv4Parts name).getLast?.any fun last ↦
    (!last.isEmpty && last.all Char.isDigit) || (ipv4Number last).isSome

/-- The address that the parts stand for: each but the last is one byte, and the last is all that
are left. -/
def ipv4OfNumbers : ℕ → List ℕ → Option ℕ
  | _, [] => none
  | left, [last] => if last < 256 ^ left then some last else none
  | left, n :: m :: rest =>
    if 255 < n then none
    else (ipv4OfNumbers (left - 1) (m :: rest)).map (n * 256 ^ (left - 1) + ·)

/-- The address that a name ending in a number stands for. -/
def ipv4 (name : List Char) : Option ℕ :=
  let parts := ipv4Parts name
  if 4 < parts.length then none else (parts.mapM ipv4Number).bind (ipv4OfNumbers 4)

/-! ### The host -/

/-- The server that a web address names. -/
inductive Host
  | domain (name : List Char)
  | ipv4 (address : ℕ)
  | ipv6 (text : List Char)
  deriving DecidableEq

/-- The four bytes of an address in decimal. -/
def ipv4Text (address : ℕ) : List Char :=
  ['.'].intercalate
    ([address / 256 ^ 3, address / 256 ^ 2 % 256, address / 256 % 256, address % 256].map fun byte ↦
      Nat.toDigits 10 byte)

/-- The host as an address writes it. -/
def Host.text : Host → List Char
  | .domain name => name
  | .ipv4 address => ipv4Text address
  | .ipv6 text => '[' :: text ++ [']']

def hostOfName (name : List Char) : Option Host :=
  if endsInNumber name then (ipv4 name).map .ipv4 else some (.domain name)

def readHost (names : Names) (text : List Char) : Option Host :=
  match text with
  | '[' :: inner =>
    if inner.getLast? = some ']' then (names.ipv6 inner.dropLast).map .ipv6 else none
  | text => (toAscii names (percentDecode (Text.utf8Bytes text))).bind hostOfName

variable {names : Names} {text name : List Char} {bytes : List UInt8}

/-! ### Domain names -/

/-- What a property of every ASCII character says of one of them. -/
theorem ascii_induction {p : Char → Prop} (h : ∀ n < 128, p (Char.ofNat n)) {c : Char}
    (hc : c.toNat < 128) : p c := by
  rw [← Char.ofNat_toNat c]
  exact h c.toNat hc

theorem isUpper_toLower (c : Char) : c.toLower.isUpper = false := by
  simp only [Char.isUpper, Char.toLower]
  split <;> grind [UInt32.toNat_add, Char.toNat_val]

theorem toLower_of_isUpper {c : Char} (h : c.isUpper = false) : c.toLower = c := by
  simp_all only [Char.isUpper, Char.toLower]
  grind

theorem isUpper_of_mem_lower {c : Char} (h : c ∈ lower text) : c.isUpper = false := by
  obtain ⟨d, -, rfl⟩ := List.mem_map.mp h
  exact isUpper_toLower d

/-- A domain name is in small letters and has none of the characters that separate. -/
theorem toAscii_eq_some (h : toAscii names bytes = some name) :
    name ≠ [] ∧ (∀ c ∈ name, isForbidden c = false) ∧ ∀ c ∈ name, c.isUpper = false := by
  obtain ⟨hname, hkept⟩ := Option.filter_eq_some_iff.mp h
  simp only [Bool.and_eq_true, Bool.not_eq_true', List.isEmpty_eq_false_iff, List.any_eq_false,
    Bool.not_eq_true] at hkept
  refine ⟨hkept.1, hkept.2, ?_⟩
  split at hname
  · cases hname
    exact fun c ↦ isUpper_of_mem_lower
  · exact names.idna_lower hname

theorem hostOfName_eq_domain (h : hostOfName text = some (.domain name)) :
    text = name ∧ endsInNumber name = false := by
  rw [hostOfName] at h
  split at h
  · obtain ⟨_, -, hv⟩ := Option.map_eq_some_iff.mp h
    cases hv
  · cases h
    exact ⟨rfl, by simpa using ‹¬endsInNumber _ = true›⟩

/-- What a domain name among the hosts is like. -/
theorem readHost_domain (h : readHost names text = some (.domain name)) :
    name ≠ [] ∧ (∀ c ∈ name, isForbidden c = false) ∧ (∀ c ∈ name, c.isUpper = false) ∧
      endsInNumber name = false := by
  rw [readHost.eq_def] at h
  split at h
  · split at h
    · obtain ⟨_, -, hv⟩ := Option.map_eq_some_iff.mp h
      cases hv
    · cases h
  · obtain ⟨ascii, hascii, hhost⟩ := Option.bind_eq_some_iff.mp h
    obtain ⟨rfl, hends⟩ := hostOfName_eq_domain hhost
    obtain ⟨hne, hforbidden, hupper⟩ := toAscii_eq_some hascii
    exact ⟨hne, hforbidden, hupper, hends⟩

/-! ### Plain texts -/

/-- A small letter, a digit, a dot or a hyphen. -/
def isPlain (c : Char) : Bool := c.isDigit || c.isLower || c = '.' || c = '-'

theorem isPlain_lt {c : Char} (h : isPlain c = true) : c.toNat < 128 := by
  simp only [isPlain, Char.isDigit, Char.isLower, Bool.or_eq_true, Bool.and_eq_true,
    decide_eq_true_eq, ge_iff_le, UInt32.le_iff_toNat_le] at h
  change c.val.toNat < 128
  rcases h with ((⟨-, h⟩ | ⟨-, h⟩) | rfl) | rfl
  · exact Nat.lt_of_le_of_lt h (by decide)
  · exact Nat.lt_of_le_of_lt h (by decide)
  · decide
  · decide

theorem isPlain_facts {c : Char} (h : isPlain c = true) :
    c.toLower = c ∧ isForbidden c = false ∧ c ≠ '[' ∧ UInt8.ofNat c.toNat ≠ 0x25 := by
  refine ascii_induction (p := fun c ↦ isPlain c = true → c.toLower = c ∧ isForbidden c = false ∧
    c ≠ '[' ∧ UInt8.ofNat c.toNat ≠ 0x25) (by decide) (isPlain_lt h) h

theorem percentDecode_of_not_mem (h : (0x25 : UInt8) ∉ bytes) : percentDecode bytes = bytes := by
  induction bytes with
  | nil => rfl
  | cons byte bytes ih =>
    simp only [List.mem_cons, not_or] at h
    obtain ⟨hbyte, hbytes⟩ := h
    rw [percentDecode.eq_def]
    split
    · next heq => exact absurd (List.cons.inj heq).1.symm hbyte
    · next heq =>
      obtain ⟨rfl, rfl⟩ := List.cons.inj heq
      rw [ih hbytes]
    · next heq => cases heq

theorem readHost_plain (hne : text ≠ []) (hplain : ∀ c ∈ text, isPlain c = true)
    (hlabel : hasEncodedLabel text = false) : readHost names text = hostOfName text := by
  have hlt : ∀ c ∈ text, c.toNat < 128 := fun c hc ↦ isPlain_lt (hplain c hc)
  have hdecode : percentDecode (Text.utf8Bytes text) = text.map fun c ↦ UInt8.ofNat c.toNat := by
    rw [Text.utf8Bytes_of_ascii hlt, percentDecode_of_not_mem]
    intro hmem
    obtain ⟨c, hc, hbyte⟩ := List.mem_map.mp hmem
    exact (isPlain_facts (hplain c hc)).2.2.2 hbyte
  have hback : ∀ c ∈ text, (UInt8.ofNat c.toNat).toNat = c.toNat := by
    intro c hc
    rw [UInt8.toNat_ofNat']
    exact Nat.mod_eq_of_lt (Nat.lt_trans (hlt c hc) (by decide))
  have hlower : lower ((text.map fun c ↦ UInt8.ofNat c.toNat).map fun byte ↦
      Char.ofNat byte.toNat) = text := by
    rw [lower, List.map_map, List.map_map]
    conv_rhs => rw [← List.map_id text]
    refine List.map_congr_left fun c hc ↦ ?_
    simp only [Function.comp_apply, hback c hc, Char.ofNat_toNat, id_eq]
    exact (isPlain_facts (hplain c hc)).1
  have hascii : toAscii names (text.map fun c ↦ UInt8.ofNat c.toNat) = some text := by
    have hsmall : (text.map fun c ↦ UInt8.ofNat c.toNat).all (· < 0x80) = true := by
      simp only [List.all_map, List.all_eq_true, Function.comp_apply, decide_eq_true_eq]
      intro c hc
      rw [UInt8.lt_iff_toNat_lt, hback c hc]
      exact hlt c hc
    have hkept : (!text.isEmpty && !text.any isForbidden) = true := by
      simp only [Bool.and_eq_true, Bool.not_eq_true', List.isEmpty_eq_false_iff, List.any_eq_false,
        Bool.not_eq_true]
      exact ⟨hne, fun c hc ↦ (isPlain_facts (hplain c hc)).2.1⟩
    simp only [toAscii, hlower]
    rw [if_pos ⟨hsmall, hlabel⟩, Option.filter_some, if_pos hkept]
  cases text with
  | nil => exact absurd rfl hne
  | cons c text =>
    have hc : c ≠ '[' := (isPlain_facts (hplain c List.mem_cons_self)).2.2.1
    rw [readHost.eq_def]
    split
    · next heq => exact absurd (List.cons.inj heq).1 hc
    · rw [hdecode, hascii, Option.bind_some]

/-! ### Numbers between dots -/

theorem isDigit_facts {c : Char} (h : c.isDigit = true) :
    isPlain c = true ∧ c ≠ '.' ∧ c ≠ 'x' ∧ c ≠ 'X' ∧ digit 10 c = some (c.toNat - 0x30) := by
  have hlt : c.toNat < 128 := isPlain_lt (by rw [isPlain, h]; rfl)
  exact ascii_induction (p := fun c ↦ c.isDigit = true → isPlain c = true ∧ c ≠ '.' ∧ c ≠ 'x' ∧
    c ≠ 'X' ∧ digit 10 c = some (c.toNat - 0x30)) (by decide) hlt h

theorem not_dot_mem_of_digits {digits : List Char} (h : ∀ c ∈ digits, c.isDigit = true) :
    '.' ∉ digits := fun hmem ↦ (isDigit_facts (h '.' hmem)).2.1 rfl

theorem digit_eq_of_le {base base' : ℕ} {c : Char} {m n : ℕ} (hm : digit base c = some m)
    (hn : digit base' c = some n) : m = n := by
  obtain ⟨hm, -⟩ := Option.filter_eq_some_iff.mp hm
  obtain ⟨hn, -⟩ := Option.filter_eq_some_iff.mp hn
  exact Option.some.inj (hm.symm.trans hn)

/-- The same digits are a larger number in a larger base. -/
theorem number_le {base base' : ℕ} (hbase : base ≤ base') {digits : List Char} {m n : ℕ}
    (hm : number base digits = some m) (hn : number base' digits = some n) : m ≤ n := by
  suffices h : ∀ {acc acc' : ℕ}, acc ≤ acc' →
      digits.foldlM (fun n c ↦ (digit base c).map (base * n + ·)) acc = some m →
      digits.foldlM (fun n c ↦ (digit base' c).map (base' * n + ·)) acc' = some n → m ≤ n from
    h le_rfl hm hn
  clear hm hn
  induction digits with
  | nil =>
    rintro acc acc' hacc ⟨⟩ ⟨⟩
    exact hacc
  | cons c digits ih =>
    intro acc acc' hacc hm hn
    rw [List.foldlM_cons] at hm hn
    obtain ⟨_, hfirst, hm⟩ := Option.bind_eq_some_iff.mp hm
    obtain ⟨_, hfirst', hn⟩ := Option.bind_eq_some_iff.mp hn
    obtain ⟨k, hk, rfl⟩ := Option.map_eq_some_iff.mp hfirst
    obtain ⟨k', hk', rfl⟩ := Option.map_eq_some_iff.mp hfirst'
    obtain rfl := digit_eq_of_le hk hk'
    exact ih (Nat.add_le_add_right (Nat.mul_le_mul hbase hacc) k) hm hn

/-- A leading zero makes a part of an address smaller than it looks, or no number at all. -/
theorem ipv4Number_le {digits : List Char} (hdigits : ∀ c ∈ digits, c.isDigit = true) {m n : ℕ}
    (hm : ipv4Number digits = some m) (hn : number 10 digits = some n) : m ≤ n := by
  rw [ipv4Number.eq_def] at hm
  split at hm
  · cases hm
  · next c digits =>
    have hc : ¬(c = 'x' ∨ c = 'X') := by
      have hdigit := isDigit_facts (hdigits c (List.mem_cons_of_mem _ List.mem_cons_self))
      exact not_or.mpr ⟨hdigit.2.2.1, hdigit.2.2.2.1⟩
    rw [if_neg hc] at hm
    exact number_le (by decide) hm hn
  · exact number_le le_rfl hm hn

theorem number_digits {base : ℕ} {digits : List Char}
    (h : ∀ c ∈ digits, (digit base c).isSome = true) : ∃ n, number base digits = some n := by
  suffices hfold : ∀ acc, ∃ n,
      digits.foldlM (fun n c ↦ (digit base c).map (base * n + ·)) acc = some n from hfold 0
  induction digits with
  | nil => exact fun acc ↦ ⟨acc, rfl⟩
  | cons c digits ih =>
    intro acc
    obtain ⟨k, hk⟩ := Option.isSome_iff_exists.mp (h c List.mem_cons_self)
    obtain ⟨n, hn⟩ := ih (fun d hd ↦ h d (List.mem_cons_of_mem _ hd)) (base * acc + k)
    refine ⟨n, ?_⟩
    rw [List.foldlM_cons, hk]
    exact hn

theorem digit_ten {c : Char} (h : c.isDigit = true) : (digit 10 c).isSome = true := by
  rw [(isDigit_facts h).2.2.2.2]
  rfl

theorem digit_eight {c : Char} (h : c.isDigit = true) (h8 : c ≠ '8') (h9 : c ≠ '9') :
    (digit 8 c).isSome = true := by
  have hlt : c.toNat < 128 := isPlain_lt (isDigit_facts h).1
  exact ascii_induction (p := fun c ↦ c.isDigit = true → c ≠ '8' → c ≠ '9' →
    (digit 8 c).isSome = true) (by decide) hlt h h8 h9

/-- Digits that stand for no part of an address. -/
theorem ipv4Number_eq_none {octet : List Char} (hne : octet ≠ [])
    (hdigits : ∀ c ∈ octet, c.isDigit = true) (h : ipv4Number octet = none) :
    octet.head? = some '0' ∧ ('8' ∈ octet ∨ '9' ∈ octet) := by
  have hten : ∃ n, number 10 octet = some n :=
    number_digits fun c hc ↦ digit_ten (hdigits c hc)
  rw [ipv4Number.eq_def] at h
  split at h
  · exact absurd rfl hne
  · next c digits =>
    have hc := isDigit_facts (hdigits c (List.mem_cons_of_mem _ List.mem_cons_self))
    rw [if_neg (not_or.mpr ⟨hc.2.2.1, hc.2.2.2.1⟩)] at h
    refine ⟨rfl, ?_⟩
    by_contra hnot
    rw [not_or] at hnot
    have height : ∀ d ∈ c :: digits, (digit 8 d).isSome = true := by
      intro d hd
      have hmem := List.mem_cons_of_mem '0' hd
      refine digit_eight (hdigits d hmem) ?_ ?_
      · rintro rfl
        exact hnot.1 hmem
      · rintro rfl
        exact hnot.2 hmem
    obtain ⟨n, hn⟩ := number_digits height
    rw [hn] at h
    cases h
  · obtain ⟨n, hn⟩ := hten
    rw [hn] at h
    cases h

/-- Numbers between dots name an address, or nothing. -/
theorem readHost_digits {parts : List (List Char)} (hne : parts ≠ []) (hlength : parts.length ≤ 4)
    (hparts : ∀ part ∈ parts, part ≠ [] ∧ ∀ c ∈ part, c.isDigit = true) :
    readHost names (Words.join '.' parts) =
      ((parts.mapM ipv4Number).bind (ipv4OfNumbers 4)).map .ipv4 := by
  have hsplit : (Words.join '.' parts).splitOn '.' = parts :=
    Words.splitOn_join hne fun part hpart ↦ not_dot_mem_of_digits (hparts part hpart).2
  have hlast := List.getLast?_eq_some_getLast hne
  have hlastOk := hparts _ (List.getLast_mem hne)
  have hparse : ipv4Parts (Words.join '.' parts) = parts := by
    simp only [ipv4Parts, hsplit]
    refine if_neg fun h ↦ hlastOk.1 ?_
    rw [hlast] at h
    exact Option.some.inj h.2
  have hends : endsInNumber (Words.join '.' parts) = true := by
    rw [endsInNumber, hparse, hlast, Option.any_some]
    have hdigits : (parts.getLast hne).all Char.isDigit = true := List.all_eq_true.mpr hlastOk.2
    have hnonempty : (parts.getLast hne).isEmpty = false := List.isEmpty_eq_false_iff.mpr hlastOk.1
    rw [hdigits, hnonempty]
    rfl
  have hplain : ∀ c ∈ Words.join '.' parts, isPlain c = true := by
    intro c hc
    by_cases hdot : c = '.'
    · subst hdot
      rfl
    · by_contra hnot
      refine Words.not_mem_join hdot (fun part hpart hmem ↦ hnot ?_) hc
      exact (isDigit_facts ((hparts part hpart).2 c hmem)).1
  have hlabel : hasEncodedLabel (Words.join '.' parts) = false := by
    rw [hasEncodedLabel, hsplit, List.any_eq_false]
    intro part hpart hencoded
    obtain ⟨rest, rfl⟩ := List.isPrefixOf_iff_prefix.mp hencoded
    exact absurd ((hparts _ hpart).2 'x' (by simp)) (by decide)
  have hjoin : Words.join '.' parts ≠ [] := by
    intro hnil
    rw [hnil] at hends
    exact absurd hends (by decide)
  rw [readHost_plain hjoin hplain hlabel, hostOfName, if_pos hends, ipv4, hparse]
  rw [if_neg (Nat.not_lt.mpr hlength)]

/-- An address of four bytes is written in digits and dots. -/
theorem mem_ipv4Text {address : ℕ} {c : Char} (h : c ∈ ipv4Text address) :
    c.isDigit = true ∨ c = '.' := by
  by_contra hnot
  rw [not_or] at hnot
  refine Words.not_mem_join hnot.2 (fun part hpart hc ↦ hnot.1 ?_) h
  obtain ⟨byte, -, rfl⟩ := List.mem_map.mp hpart
  exact Nat.isDigit_of_mem_toDigits (by decide) (by decide) hc

theorem ipv4Text_ne_nil (address : ℕ) : ipv4Text address ≠ [] := by
  rw [ipv4Text, List.map_cons, List.map_cons]
  change Words.join '.' (_ :: _ :: _) ≠ []
  simp [Words.join_cons_cons]

end Url
