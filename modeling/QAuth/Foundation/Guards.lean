import Mathlib.Data.List.Forall2

/-!
# Handlers as sequences of guards

A request handler that may refuse is a computation in `Except ε`: it reads, refuses where a check
fails, and returns what it would do. This file gives the three forms such a handler is written in
and one equivalence for each, so that the whole success path of a handler is read off by rewriting:
a handler answers `.ok r` exactly when none of its guards holds and its last step answers `r`.
-/

namespace Guards

universe u

variable {ε : Type*} {α β : Type u}

/-- Refuse with `e` where `c` holds. -/
def refuseIf (c : Prop) [Decidable c] (e : ε) : Except ε Unit :=
  if c then .error e else .ok ()

/-- The value of `o`, or the refusal `e` where there is none. -/
def require (o : Option α) (e : ε) : Except ε α :=
  match o with
  | some a => .ok a
  | none => .error e

/-- Refuse with what `o` holds, if anything. -/
def refuseSome (o : Option ε) : Except ε Unit :=
  match o with
  | some e => .error e
  | none => .ok ()

/-- A sequence succeeds exactly where its first part does and the rest does on its value. -/
@[simp] theorem bind_eq_ok_iff {x : Except ε α} {f : α → Except ε β} {b : β} :
    (x >>= f) = .ok b ↔ ∃ a, x = .ok a ∧ f a = .ok b := by
  cases x with
  | error e =>
    constructor
    · intro h
      cases h
    · rintro ⟨a, h, -⟩
      cases h
  | ok a =>
    constructor
    · exact fun h ↦ ⟨a, rfl, h⟩
    · rintro ⟨a', h, hf⟩
      cases h
      exact hf

@[simp] theorem pure_eq_ok_iff {a b : α} : (pure a : Except ε α) = .ok b ↔ a = b := by
  constructor
  · intro h
    cases h
    rfl
  · rintro rfl
    rfl

@[simp] theorem refuseIf_eq_ok_iff {c : Prop} [Decidable c] {e : ε} {u : Unit} :
    refuseIf c e = .ok u ↔ ¬ c := by
  by_cases hc : c <;> simp [refuseIf, hc]

@[simp] theorem require_eq_ok_iff {o : Option α} {e : ε} {a : α} :
    require o e = .ok a ↔ o = some a := by
  cases o <;> simp [require]

@[simp] theorem refuseSome_eq_ok_iff {o : Option ε} {u : Unit} :
    refuseSome o = .ok u ↔ o = none := by
  cases o <;> simp [refuseSome]

/-- Another name for a refusal is no success. -/
@[simp] theorem mapError_eq_ok_iff {ε' : Type*} {x : Except ε' α} {f : ε' → ε} {a : α} :
    x.mapError f = .ok a ↔ x = .ok a := by
  cases x <;> simp [Except.mapError]

/-- What a list of handlers answers is what each of them answers. -/
theorem mapM_eq_ok_iff_forall₂ {f : α → Except ε β} {xs : List α} {ys : List β} :
    xs.mapM f = .ok ys ↔ List.Forall₂ (fun x y ↦ f x = .ok y) xs ys := by
  induction xs generalizing ys with
  | nil =>
    rw [List.mapM_nil, pure_eq_ok_iff, List.forall₂_nil_left_iff]
    exact eq_comm
  | cons x xs ih =>
    simp only [List.mapM_cons, bind_eq_ok_iff, pure_eq_ok_iff, ih, List.forall₂_cons_left_iff]
    constructor
    · rintro ⟨y, hy, ys', hys, rfl⟩
      exact ⟨y, ys', hy, hys, rfl⟩
    · rintro ⟨y, ys', hy, hys, rfl⟩
      exact ⟨y, hy, ys', hys, rfl⟩

/-- A list of handlers answers where each of them does. -/
theorem exists_mapM_eq_ok {f : α → Except ε β} {xs : List α} (h : ∀ x ∈ xs, ∃ y, f x = .ok y) :
    ∃ ys, xs.mapM f = .ok ys := by
  induction xs with
  | nil => exact ⟨[], rfl⟩
  | cons x xs ih =>
    rw [List.forall_mem_cons] at h
    obtain ⟨⟨y, hy⟩, hxs⟩ := h
    obtain ⟨ys, hys⟩ := ih hxs
    exact ⟨y :: ys, by simp [hy, hys]⟩

/-- What a list of handlers answers, one of them answers. -/
theorem exists_of_mem_mapM {f : α → Except ε β} {xs : List α} {ys : List β}
    (h : xs.mapM f = .ok ys) {y : β} (hy : y ∈ ys) : ∃ x ∈ xs, f x = .ok y := by
  rw [mapM_eq_ok_iff_forall₂] at h
  induction h with
  | nil => cases hy
  | cons hxy _ ih =>
    rcases List.mem_cons.mp hy with rfl | hy
    · exact ⟨_, List.mem_cons_self, hxy⟩
    · obtain ⟨x, hx, hfx⟩ := ih hy
      exact ⟨x, List.mem_cons_of_mem _ hx, hfx⟩

/-- What one of a list of handlers answers is among what they answer. -/
theorem exists_mem_of_mapM {f : α → Except ε β} {xs : List α} {ys : List β}
    (h : xs.mapM f = .ok ys) {x : α} (hx : x ∈ xs) : ∃ y ∈ ys, f x = .ok y := by
  rw [mapM_eq_ok_iff_forall₂] at h
  induction h with
  | nil => cases hx
  | cons hxy _ ih =>
    rcases List.mem_cons.mp hx with rfl | hx
    · exact ⟨_, List.mem_cons_self, hxy⟩
    · obtain ⟨y, hy, hfx⟩ := ih hx
      exact ⟨y, List.mem_cons_of_mem _ hy, hfx⟩

/-- An order of what a list of handlers is given is an order of what they answer. -/
theorem pairwise_of_mapM {f : α → Except ε β} {xs : List α} {ys : List β} {R : α → α → Prop}
    {S : β → β → Prop} (h : xs.mapM f = .ok ys) (hR : xs.Pairwise R)
    (hRS : ∀ x ∈ xs, ∀ x' ∈ xs, R x x' → ∀ y y', f x = .ok y → f x' = .ok y' → S y y') :
    ys.Pairwise S := by
  induction xs generalizing ys with
  | nil =>
    rw [List.mapM_nil, pure_eq_ok_iff] at h
    exact h ▸ .nil
  | cons x xs ih =>
    simp only [List.mapM_cons, bind_eq_ok_iff, pure_eq_ok_iff] at h
    obtain ⟨y, hy, ys', hys, rfl⟩ := h
    obtain ⟨hx, hxs⟩ := List.pairwise_cons.mp hR
    refine .cons (fun y' hy' ↦ ?_) (ih hys hxs fun x₁ h₁ x₂ h₂ ↦
      hRS x₁ (List.mem_cons_of_mem _ h₁) x₂ (List.mem_cons_of_mem _ h₂))
    obtain ⟨x', hx', hfx'⟩ := exists_of_mem_mapM hys hy'
    exact hRS x List.mem_cons_self x' (List.mem_cons_of_mem _ hx') (hx x' hx') y y' hy hfx'

/-! ### What every refusal satisfies -/

section Refuses

variable {P : ε → Prop}

/-- Every refusal of the handler satisfies `P`. -/
def Refuses (P : ε → Prop) (x : Except ε α) : Prop := ∀ e, x = .error e → P e

/-- A sequence refuses where its first part does, or the rest on its value. -/
theorem refuses_bind_iff {x : Except ε α} {f : α → Except ε β} :
    Refuses P (x >>= f) ↔ Refuses P x ∧ ∀ a, x = .ok a → Refuses P (f a) := by
  cases x with
  | error e =>
    refine ⟨fun h ↦ ⟨fun e' he ↦ h e' ?_, fun a ha ↦ (nomatch ha)⟩, fun h e' he ↦ h.1 e' ?_⟩
    · cases he
      rfl
    · cases he
      rfl
  | ok a =>
    refine ⟨fun h ↦ ⟨fun e he ↦ (nomatch he), fun a' ha ↦ ?_⟩, fun h ↦ h.2 a rfl⟩
    cases ha
    exact h

theorem refuses_pure {a : α} : Refuses P (pure a : Except ε α) := fun _ h ↦ nomatch h

theorem refuses_refuseIf_iff {c : Prop} [Decidable c] {e : ε} :
    Refuses P (refuseIf c e) ↔ (c → P e) := by
  by_cases hc : c <;> simp [Refuses, refuseIf, hc]

theorem refuses_require_iff {o : Option α} {e : ε} :
    Refuses P (require o e) ↔ (o = none → P e) := by
  cases o <;> simp [Refuses, require]

theorem refuses_refuseSome_iff {o : Option ε} :
    Refuses P (refuseSome o) ↔ ∀ e, o = some e → P e := by
  cases o <;> simp [Refuses, refuseSome]

theorem refuses_mapError_iff {ε' : Type*} {x : Except ε' α} {f : ε' → ε} :
    Refuses P (x.mapError f) ↔ ∀ e, x = .error e → P (f e) := by
  cases x <;> simp [Refuses, Except.mapError]

end Refuses

end Guards
