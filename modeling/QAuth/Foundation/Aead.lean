import Mathlib.Data.List.Nodup

/-!
# An ideal authenticated cipher

An authenticated cipher with associated data, as an ideal functionality: it keeps what it sealed, and
it opens a ciphertext only for the key, the nonce and the associated data that it was sealed with. No
two seals have one nonce and one ciphertext. A ciphertext is as long as its plaintext and a tag of 16
bytes.
-/

namespace Aead

def tagLength : ℕ := 16

/-- One plaintext that was sealed, with the ciphertext that was made of it. -/
structure Seal where
  key : List UInt8
  nonce : List UInt8
  associated : List UInt8
  plaintext : List UInt8
  /-- the ciphertext, then its tag -/
  body : List UInt8
  tagged : body.length = plaintext.length + tagLength
deriving DecidableEq

/-- What was sealed. -/
structure Ledger where
  seals : List Seal
  distinct : (seals.map fun s ↦ (s.nonce, s.body)).Nodup

namespace Ledger

variable {L : Ledger} {s : Seal} {key nonce associated body plaintext : List UInt8}

/-- The plaintext of a ciphertext, where it was sealed with all that is given. -/
def open? (L : Ledger) (key nonce associated body : List UInt8) : Option (List UInt8) :=
  (L.seals.find? fun s ↦ s.key = key ∧ s.nonce = nonce ∧ s.associated = associated ∧
    s.body = body).map (·.plaintext)

/-- A nonce and a ciphertext are those of one seal. -/
theorem eq_of_mem {t : Seal} (hs : s ∈ L.seals) (ht : t ∈ L.seals) (hnonce : s.nonce = t.nonce)
    (hbody : s.body = t.body) : s = t :=
  List.inj_on_of_nodup_map L.distinct hs ht (Prod.ext hnonce hbody)

theorem open?_eq_some_iff : L.open? key nonce associated body = some plaintext ↔
    ∃ s ∈ L.seals, s.key = key ∧ s.nonce = nonce ∧ s.associated = associated ∧ s.body = body ∧
      s.plaintext = plaintext := by
  rw [open?, Option.map_eq_some_iff]
  constructor
  · rintro ⟨s, hfind, rfl⟩
    have hs := List.find?_some hfind
    simp only [decide_eq_true_eq] at hs
    exact ⟨s, List.mem_of_find?_eq_some hfind, hs.1, hs.2.1, hs.2.2.1, hs.2.2.2, rfl⟩
  · rintro ⟨s, hmem, rfl, rfl, rfl, rfl, rfl⟩
    cases hfind : L.seals.find? fun t ↦ t.key = s.key ∧ t.nonce = s.nonce ∧
        t.associated = s.associated ∧ t.body = s.body with
    | none =>
      have hall := List.find?_eq_none.mp hfind s hmem
      simp at hall
    | some t =>
      have ht := List.find?_some hfind
      simp only [decide_eq_true_eq] at ht
      rw [eq_of_mem (List.mem_of_find?_eq_some hfind) hmem ht.2.1 ht.2.2.2]
      exact ⟨s, rfl, rfl⟩

theorem open?_of_mem (h : s ∈ L.seals) :
    L.open? s.key s.nonce s.associated s.body = some s.plaintext :=
  open?_eq_some_iff.mpr ⟨s, h, rfl, rfl, rfl, rfl, rfl⟩

/-- The ciphertext of a seal opens for its key and its associated data alone. -/
theorem eq_of_open? (h : s ∈ L.seals)
    (hopen : L.open? key s.nonce associated s.body = some plaintext) :
    key = s.key ∧ associated = s.associated ∧ plaintext = s.plaintext := by
  obtain ⟨t, ht, rfl, hnonce, rfl, hbody, rfl⟩ := open?_eq_some_iff.mp hopen
  rw [eq_of_mem ht h hnonce hbody]
  exact ⟨rfl, rfl, rfl⟩

end Ledger

end Aead
