import Mathlib.Data.List.Basic
import Mathlib.Data.List.TakeDrop

/-!
# Words between separators

A list over `α` is read as words: its maximal nonempty runs of elements that are no separators,
where a predicate `sep` says what separates. Words are written back with one separator between
each two. Reading what was written gives the words back.
-/

namespace Words

variable {α : Type*} {sep : α → Bool} {c : α} {w : List α} {ws : List (List α)}

/-- A word: not empty, and without a separator. -/
def IsWord (sep : α → Bool) (w : List α) : Prop := w ≠ [] ∧ ∀ a ∈ w, sep a = false

instance [DecidableEq α] (sep : α → Bool) (w : List α) : Decidable (IsWord sep w) :=
  inferInstanceAs (Decidable (_ ∧ _))

/-- The words of a list, in order. -/
def split (sep : α → Bool) (l : List α) : List (List α) :=
  (l.splitOnP sep).filter fun w ↦ !w.isEmpty

/-- The words `ws` with `c` between each two. -/
def join (c : α) (ws : List (List α)) : List α := [c].intercalate ws

/-- Between two separators stands no separator. -/
theorem sep_eq_false_of_mem_splitOnP (l : List α) :
    ∀ w ∈ l.splitOnP sep, ∀ a ∈ w, sep a = false := by
  induction l with
  | nil =>
    rw [List.splitOnP_nil]
    rintro w hw a ha
    rw [List.mem_singleton.mp hw] at ha
    cases ha
  | cons b l ih =>
    rw [List.splitOnP_cons_eq_if_modifyHead]
    by_cases hb : sep b = true
    · rw [if_pos hb]
      rintro w hw a ha
      rcases List.mem_cons.mp hw with rfl | hw
      · cases ha
      · exact ih w hw a ha
    · rw [if_neg hb]
      cases hl : l.splitOnP sep with
      | nil =>
        intro w hw
        cases hw
      | cons v vs =>
        rw [hl] at ih
        rintro w hw a ha
        rcases List.mem_cons.mp hw with rfl | hw
        · rcases List.mem_cons.mp ha with rfl | ha
          · simpa using hb
          · exact ih v List.mem_cons_self a ha
        · exact ih w (List.mem_cons_of_mem _ hw) a ha

theorem isWord_of_mem_split {l : List α} (hw : w ∈ split sep l) : IsWord sep w := by
  obtain ⟨hmem, hne⟩ := List.mem_filter.mp hw
  refine ⟨?_, sep_eq_false_of_mem_splitOnP l w hmem⟩
  rintro rfl
  cases hne

theorem join_cons_cons (v w : List α) (ws : List (List α)) :
    join c (v :: w :: ws) = v ++ c :: join c (w :: ws) := by
  simp [join, List.intercalate]

theorem not_mem_join {a : α} (hc : a ≠ c) (hws : ∀ w ∈ ws, a ∉ w) : a ∉ join c ws := by
  induction ws with
  | nil => nofun
  | cons w ws ih =>
    have hw : a ∉ w := hws w List.mem_cons_self
    have hws' : ∀ v ∈ ws, a ∉ v := fun v hv ↦ hws v (List.mem_cons_of_mem _ hv)
    cases ws with
    | nil => simpa [join] using hw
    | cons v vs => simp [join_cons_cons, hw, hc, ih hws']

theorem split_join (hc : sep c = true) (hws : ∀ w ∈ ws, IsWord sep w) :
    split sep (join c ws) = ws := by
  induction ws with
  | nil => rfl
  | cons w ws ih =>
    have hw : IsWord sep w := hws w List.mem_cons_self
    have hws' : ∀ v ∈ ws, IsWord sep v := fun v hv ↦ hws v (List.mem_cons_of_mem _ hv)
    have hne : (!w.isEmpty) = true := by simp [hw.1]
    cases ws with
    | nil =>
      have hsplit : w.splitOnP sep = [w] := List.splitOnP_eq_singleton hw.2
      simp [split, join, hsplit, hne]
    | cons v vs =>
      have hsplit : (w ++ c :: join c (v :: vs)).splitOnP sep =
          w :: (join c (v :: vs)).splitOnP sep :=
        List.splitOnP_append_cons_of_forall_mem hw.2 c hc _
      rw [join_cons_cons, split, hsplit, List.filter_cons, if_pos hne]
      exact congrArg (w :: ·) (ih hws')

/-! ### Every piece between separators -/

/-- Pieces without a separator are read back, empty ones among them. -/
theorem splitOn_join [BEq α] [LawfulBEq α] (hne : ws ≠ []) (hws : ∀ w ∈ ws, c ∉ w) :
    (join c ws).splitOn c = ws := by
  induction ws with
  | nil => exact absurd rfl hne
  | cons w ws ih =>
    have hw : c ∉ w := hws w List.mem_cons_self
    cases ws with
    | nil =>
      have hjoin : join c [w] = w := by simp [join]
      rw [hjoin, List.splitOn_eq_singleton hw]
    | cons v vs =>
      rw [join_cons_cons, List.splitOn_append_cons_self_of_not_mem hw]
      exact congrArg (w :: ·) (ih nofun fun v hv ↦ hws v (List.mem_cons_of_mem _ hv))

/-- What stands before the first separator, and after it. -/
theorem append_cons_inj {v r s : List α} (hv : c ∉ v) (hw : c ∉ w) (h : v ++ c :: r = w ++ c :: s) :
    v = w ∧ r = s := by
  induction v generalizing w with
  | nil =>
    cases w with
    | nil => exact ⟨rfl, (List.cons.inj h).2⟩
    | cons b w =>
      obtain ⟨rfl, -⟩ := List.cons.inj h
      exact absurd List.mem_cons_self hw
  | cons a v ih =>
    cases w with
    | nil =>
      obtain ⟨rfl, -⟩ := List.cons.inj h
      exact absurd List.mem_cons_self hv
    | cons b w =>
      obtain ⟨rfl, htail⟩ := List.cons.inj h
      obtain ⟨rfl, rfl⟩ := ih (fun hmem ↦ hv (List.mem_cons_of_mem _ hmem))
        (fun hmem ↦ hw (List.mem_cons_of_mem _ hmem)) htail
      exact ⟨rfl, rfl⟩

/-! ### The start of a list -/

/-- What follows `w` at the start of `l`. -/
def after [BEq α] (w l : List α) : Option (List α) :=
  if w.isPrefixOf l then some (l.drop w.length) else none

theorem after_eq_some_iff [BEq α] [LawfulBEq α] {l r : List α} :
    after w l = some r ↔ l = w ++ r := by
  rw [after]
  constructor
  · intro h
    obtain ⟨hstarts, hr⟩ := Option.ite_none_right_eq_some.mp h
    obtain ⟨t, rfl⟩ := List.isPrefixOf_iff_prefix.mp hstarts
    obtain rfl := Option.some.inj hr
    rw [List.drop_left]
  · rintro rfl
    rw [if_pos (List.isPrefixOf_iff_prefix.mpr ⟨r, rfl⟩), List.drop_left]

/-- A list is cut where the first element of a class stands. -/
theorem span_append {p : α → Bool} {l r : List α} (hl : ∀ a ∈ l, p a = true)
    (hr : ∀ a ∈ r.head?, p a = false) : (l ++ r).span p = (l, r) := by
  rw [List.span_eq_takeWhile_dropWhile, List.takeWhile_append_of_pos hl,
    List.dropWhile_append_of_pos hl]
  cases r with
  | nil => simp
  | cons a r =>
    have ha : p a = false := hr a rfl
    simp [ha]

theorem append_inj_of_head {p : α → Bool} {l r l' r' : List α} (hl : ∀ a ∈ l, p a = true)
    (hr : ∀ a ∈ r.head?, p a = false) (hl' : ∀ a ∈ l', p a = true)
    (hr' : ∀ a ∈ r'.head?, p a = false) (h : l ++ r = l' ++ r') : l = l' ∧ r = r' := by
  have hspan := congrArg (List.span p) h
  rw [span_append hl hr, span_append hl' hr'] at hspan
  exact Prod.mk.inj hspan

end Words
