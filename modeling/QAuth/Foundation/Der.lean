import Mathlib.Data.List.Infix
import Mathlib.Data.Nat.Digits.Lemmas
import Mathlib.Data.UInt

/-!
# DER elements

The distinguished encoding of tag-length-value elements with one-byte tags, and a reader that
decodes one element at an offset of a buffer and steps over a run of them.
-/

namespace Der

/-! ### Encoding -/

/-- The bytes of a number, most significant first. -/
def bigEndian (n : ℕ) : List UInt8 := (Nat.digits 256 n).reverse.map UInt8.ofNat

/-- The length octets of `n` bytes of content. -/
def lengthOctets (n : ℕ) : List UInt8 :=
  if n < 128 then [UInt8.ofNat n]
  else UInt8.ofNat (128 + (bigEndian n).length) :: bigEndian n

/-- The bytes of an element. -/
def encode (tag : UInt8) (content : List UInt8) : List UInt8 :=
  tag :: lengthOctets content.length ++ content

/-- How many bytes precede the content. -/
def headerLength (n : ℕ) : ℕ := 1 + (lengthOctets n).length

theorem length_encode (tag : UInt8) (content : List UInt8) :
    (encode tag content).length = headerLength content.length + content.length := by
  simp only [encode, headerLength, List.cons_append, List.length_cons, List.length_append]
  omega

/-! ### Reading -/

/-- A decoded element: where its content lies. -/
structure Element where
  tag : UInt8
  contentStart : ℕ
  contentEnd : ℕ

/-- The number some bytes spell, most significant first. -/
def ofBytes (bytes : List UInt8) : ℕ := bytes.foldl (fun n b ↦ n * 256 + b.toNat) 0

/-- The element at an offset; multi-byte tags, indefinite lengths and lengths of more than four bytes
are refused. -/
def readElement (buffer : List UInt8) (offset : ℕ) : Option Element :=
  match buffer.drop offset with
  | tag :: first :: rest =>
    if tag &&& 0x1f = 0x1f then none
    else
      let finish (contentStart length : ℕ) : Option Element :=
        if buffer.length < contentStart + length then none
        else some ⟨tag, contentStart, contentStart + length⟩
      if first < 0x80 then finish (offset + 2) first.toNat
      else
        let lengthBytes := (first &&& 0x7f).toNat
        if lengthBytes = 0 ∨ 4 < lengthBytes then none
        else if buffer.length < offset + 2 + lengthBytes then none
        else finish (offset + 2 + lengthBytes) (ofBytes (rest.take lengthBytes))
  | _ => none

/-- The bytes between two offsets. -/
def subarray (buffer : List UInt8) (start finish : ℕ) : List UInt8 :=
  (buffer.drop start).take (finish - start)

/-- The elements of a run, visited until there is an answer; a run that cannot be read has the answer
`unreadable`, and one without an answer `absent`. -/
def walk {β : Type*} (buffer : List UInt8) (finish : ℕ) (visit : Element → Option β)
    (unreadable absent : β) : ℕ → ℕ → β
  | 0, _ => unreadable
  | fuel + 1, offset =>
    if offset < finish then
      match readElement buffer offset with
      | none => unreadable
      | some element =>
        match visit element with
        | some answer => answer
        | none => walk buffer finish visit unreadable absent fuel element.contentEnd
    else absent

/-! ### The bytes at an offset -/

def At (buffer : List UInt8) (offset : ℕ) (bytes : List UInt8) : Prop :=
  bytes <+: buffer.drop offset

section At

variable {buffer : List UInt8} {offset : ℕ} {a b : List UInt8}

theorem At.left (h : At buffer offset (a ++ b)) : At buffer offset a :=
  (List.prefix_append a b).trans h

theorem At.right (h : At buffer offset (a ++ b)) : At buffer (offset + a.length) b := by
  obtain ⟨rest, hrest⟩ := h
  refine ⟨rest, ?_⟩
  rw [← List.drop_drop, ← hrest, List.append_assoc, List.drop_left]

theorem At.whole (buffer : List UInt8) : At buffer 0 buffer := List.prefix_refl buffer

theorem At.length_le (h : At buffer offset a) (ha : a ≠ []) :
    offset + a.length ≤ buffer.length := by
  have hle := List.IsPrefix.length_le h
  have hpos := List.length_pos_iff.mpr ha
  rw [List.length_drop] at hle
  omega

theorem At.subarray_eq (h : At buffer offset a) :
    subarray buffer offset (offset + a.length) = a := by
  rw [subarray, Nat.add_sub_cancel_left]
  exact (List.prefix_iff_eq_take.mp h).symm

end At

/-! ### Lengths -/

theorem ofBytes_append (bytes : List UInt8) (b : UInt8) :
    ofBytes (bytes ++ [b]) = ofBytes bytes * 256 + b.toNat := by
  simp [ofBytes]

theorem ofBytes_reverse {ds : List ℕ} (h : ∀ d ∈ ds, d < 256) :
    ofBytes (ds.reverse.map UInt8.ofNat) = Nat.ofDigits 256 ds := by
  induction ds with
  | nil => rfl
  | cons d ds ih =>
    have hd : d < 256 := h d List.mem_cons_self
    rw [List.reverse_cons, List.map_append, List.map_singleton, ofBytes_append,
      ih fun x hx ↦ h x (List.mem_cons_of_mem _ hx), Nat.ofDigits_cons, UInt8.toNat_ofNat',
      Nat.mod_eq_of_lt hd]
    ring

theorem ofBytes_bigEndian (n : ℕ) : ofBytes (bigEndian n) = n := by
  rw [bigEndian, ofBytes_reverse fun d hd ↦ Nat.digits_lt_base (by omega) hd, Nat.ofDigits_digits]

theorem length_bigEndian_le {n k : ℕ} (h : n < 256 ^ k) : (bigEndian n).length ≤ k := by
  rw [bigEndian, List.length_map, List.length_reverse]
  exact (Nat.digits_length_le_iff (by omega) n).mpr h

theorem bigEndian_ne_nil {n : ℕ} (h : n ≠ 0) : bigEndian n ≠ [] := by
  simp [bigEndian, Nat.digits_eq_nil_iff_eq_zero, h]

/-! ### Reading an encoded element -/

section Read

variable {buffer : List UInt8} {offset : ℕ} {tag : UInt8} {content : List UInt8}

/-- The content of an encoded element stands behind its header. -/
theorem At.inner (h : At buffer offset (encode tag content)) :
    At buffer (offset + headerLength content.length) content := by
  have hright := At.right (a := tag :: lengthOctets content.length) h
  rwa [List.length_cons, Nat.add_comm _ 1] at hright

theorem readElement_of_at (h : At buffer offset (encode tag content)) (htag : tag &&& 0x1f ≠ 0x1f)
    (hsize : content.length < 256 ^ 4) :
    readElement buffer offset =
      some ⟨tag, offset + headerLength content.length,
        offset + headerLength content.length + content.length⟩ := by
  have hfits : offset + headerLength content.length + content.length ≤ buffer.length := by
    have := h.length_le (List.cons_ne_nil _ _)
    rw [length_encode] at this
    omega
  obtain ⟨rest, hrest⟩ := h
  by_cases hshort : content.length < 128
  · have hlength : (UInt8.ofNat content.length).toNat = content.length := by
      rw [UInt8.toNat_ofNat']
      omega
    have hfirst : UInt8.ofNat content.length < 0x80 := by
      rw [UInt8.lt_iff_toNat_lt, hlength]
      exact hshort
    have hheader : headerLength content.length = 2 := by
      simp [headerLength, lengthOctets, hshort]
    rw [hheader] at hfits ⊢
    rw [encode, lengthOctets, if_pos hshort] at hrest
    rw [readElement, ← hrest]
    simp only [List.cons_append, List.nil_append, if_neg htag, if_pos hfirst, hlength,
      if_neg (Nat.not_lt.mpr hfits)]
  · have hbytes := length_bigEndian_le hsize
    have hpos : 0 < (bigEndian content.length).length :=
      List.length_pos_iff.mpr (bigEndian_ne_nil (by omega))
    have hheader : headerLength content.length = 2 + (bigEndian content.length).length := by
      simp only [headerLength, lengthOctets, if_neg hshort, List.length_cons]
      omega
    have hspelled := ofBytes_bigEndian content.length
    rw [hheader, ← Nat.add_assoc] at hfits ⊢
    rw [encode, lengthOctets, if_neg hshort] at hrest
    rw [readElement, ← hrest]
    have hfirst : ¬ UInt8.ofNat (128 + (bigEndian content.length).length) < 0x80 := by
      rw [UInt8.lt_iff_toNat_lt, UInt8.toNat_ofNat', Nat.mod_eq_of_lt (by omega)]
      show ¬ _ < 128
      omega
    have hcount : (UInt8.ofNat (128 + (bigEndian content.length).length) &&& 0x7f).toNat =
        (bigEndian content.length).length := by
      generalize (bigEndian content.length).length = k at hbytes hpos
      interval_cases k <;> rfl
    simp only [List.cons_append, if_neg htag, if_neg hfirst, hcount]
    rw [if_neg (by omega), if_neg (by omega), List.append_assoc, List.take_left, hspelled,
      if_neg (Nat.not_lt.mpr hfits)]

end Read

/-! ### Walking a run of elements -/

section Walk

variable {β : Type*} {buffer : List UInt8} {finish offset fuel : ℕ} {visit : Element → Option β}
  {unreadable absent : β}

theorem walk_end (h : finish ≤ offset) :
    walk buffer finish visit unreadable absent (fuel + 1) offset = absent := by
  rw [walk, if_neg (Nat.not_lt.mpr h)]

theorem walk_stop {element : Element} {answer : β} (hoffset : offset < finish)
    (hread : readElement buffer offset = some element) (hvisit : visit element = some answer) :
    walk buffer finish visit unreadable absent (fuel + 1) offset = answer := by
  rw [walk, if_pos hoffset, hread]
  dsimp only
  rw [hvisit]

/-- A walk steps over an element the visitor has no answer for. -/
theorem walk_skip {element : Element} (hoffset : offset < finish)
    (hread : readElement buffer offset = some element) (hvisit : visit element = none) :
    walk buffer finish visit unreadable absent (fuel + 1) offset =
      walk buffer finish visit unreadable absent fuel element.contentEnd := by
  rw [walk, if_pos hoffset, hread]
  dsimp only
  rw [hvisit]

/-- The bytes of a run of elements. -/
def encodeAll (elements : List (UInt8 × List UInt8)) : List UInt8 :=
  elements.flatMap fun e ↦ encode e.1 e.2

theorem length_le_length_encodeAll (elements : List (UInt8 × List UInt8)) :
    2 * elements.length ≤ (encodeAll elements).length := by
  induction elements with
  | nil => exact Nat.le_refl 0
  | cons e es ih =>
    rw [encodeAll, List.flatMap_cons, List.length_append, length_encode, headerLength]
    rw [encodeAll] at ih
    have : 0 < (lengthOctets e.2.length).length := by
      rw [lengthOctets]
      split <;> simp
    simp only [List.length_cons]
    omega

/-- A walk steps over a run of elements the visitor has no answer for. -/
theorem walk_run {elements : List (UInt8 × List UInt8)}
    (h : At buffer offset (encodeAll elements)) (hfinish : offset + (encodeAll elements).length ≤ finish)
    (htags : ∀ e ∈ elements, e.1 &&& 0x1f ≠ 0x1f) (hsizes : ∀ e ∈ elements, e.2.length < 256 ^ 4)
    (hvisit : ∀ e ∈ elements, ∀ o, At buffer o (encode e.1 e.2) →
      visit ⟨e.1, o + headerLength e.2.length, o + headerLength e.2.length + e.2.length⟩ = none) :
    walk buffer finish visit unreadable absent (fuel + elements.length) offset =
      walk buffer finish visit unreadable absent fuel (offset + (encodeAll elements).length) := by
  induction elements generalizing offset with
  | nil => rfl
  | cons e es ih =>
    have hbytes : encodeAll (e :: es) = encode e.1 e.2 ++ encodeAll es := rfl
    rw [hbytes] at h hfinish ⊢
    rw [List.length_append] at hfinish ⊢
    have hhead := length_encode e.1 e.2
    have hpos : 0 < headerLength e.2.length := by
      rw [headerLength]
      omega
    have hread := readElement_of_at h.left (htags e List.mem_cons_self) (hsizes e List.mem_cons_self)
    rw [List.length_cons, ← Nat.add_assoc,
      walk_skip (by omega) hread (hvisit e List.mem_cons_self offset h.left)]
    dsimp only
    rw [Nat.add_assoc offset, ← hhead, ih h.right (by omega)
      (fun x hx ↦ htags x (List.mem_cons_of_mem e hx))
      (fun x hx ↦ hsizes x (List.mem_cons_of_mem e hx))
      (fun x hx ↦ hvisit x (List.mem_cons_of_mem e hx)), Nat.add_assoc]

end Walk

end Der
