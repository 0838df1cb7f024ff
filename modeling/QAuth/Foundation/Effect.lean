import Mathlib.Logic.Basic
import Mathlib.Data.List.Basic

/-!
# Procedures that call ports

A procedure reads and writes a state, calls ports and may stop early. The ports are given by the
calls that can be made and by what each may answer; an environment answers them, and may remember
all that was called before. Every call leaves an event in the trace. What a procedure wrote stays
written when it stops early.

A postcondition of a procedure speaks of how it ended, of the state and of the trace. The rules
below take a procedure apart along its text; a predicate that every event of a kind and every
write of a kind keeps is then kept by the whole procedure.
-/

namespace Effect

/-- The calls that can be made, and what each may answer. -/
structure Ports where
  Call : Type
  Answer : Call → Type

/-- A call that was made, with its answer. -/
structure Event (P : Ports) where
  call : P.Call
  answer : P.Answer call

/-- Whatever answers the calls: it may remember all that came before. -/
def Environment (P : Ports) : Type := (call : P.Call) → List (Event P) → P.Answer call

/-- A state, and the calls made so far. -/
structure Memory (P : Ports) (σ : Type) where
  state : σ
  trace : List (Event P)

/-- A procedure that ends with a value or stops early. -/
def Proc (P : Ports) (σ ε α : Type) : Type :=
  Environment P → Memory P σ → Except ε α × Memory P σ

variable {P : Ports} {σ ε α β : Type}

namespace Proc

/-- Nothing but a value. -/
def pure (a : α) : Proc P σ ε α := fun _ m ↦ (.ok a, m)

/-- One procedure after the other. -/
def bind (x : Proc P σ ε α) (f : α → Proc P σ ε β) : Proc P σ ε β := fun env m ↦
  match x env m with
  | (.ok a, m') => f a env m'
  | (.error e, m') => (.error e, m')

instance : Monad (Proc P σ ε) where
  pure := pure
  bind := bind

end Proc

/-- Stop early. -/
def exit (e : ε) : Proc P σ ε α := fun _ m ↦ (.error e, m)

/-- A value, or an early stop. -/
def ofExcept : Except ε α → Proc P σ ε α
  | .ok a => pure a
  | .error e => exit e

def read : Proc P σ ε σ := fun _ m ↦ (.ok m.state, m)

/-- Write the state. -/
def update (f : σ → σ) : Proc P σ ε Unit := fun _ m ↦ (.ok (), { m with state := f m.state })

/-- Call a port. -/
def call (c : P.Call) : Proc P σ ε (P.Answer c) := fun env m ↦
  (.ok (env c m.trace), { m with trace := m.trace ++ [⟨c, env c m.trace⟩] })

/-- How `x` ended, as a value, where `catches` says so of its early stop. -/
def attempt (catches : ε → Bool) (x : Proc P σ ε α) : Proc P σ ε (Except ε α) := fun env m ↦
  match x env m with
  | (.ok a, m') => (.ok (.ok a), m')
  | (.error e, m') => if catches e then (.ok (.error e), m') else (.error e, m')

/-- The states from which `x` ends as `post` says. -/
def wp (env : Environment P) (x : Proc P σ ε α) (post : Except ε α → Memory P σ → Prop)
    (m : Memory P σ) : Prop :=
  post (x env m).1 (x env m).2

/-- What must hold after the first of two procedures. -/
def andThen (env : Environment P) (f : α → Proc P σ ε β)
    (post : Except ε β → Memory P σ → Prop) : Except ε α → Memory P σ → Prop
  | .ok a, m => wp env (f a) post m
  | .error e, m => post (.error e) m

section Rules

variable {env : Environment P} {x : Proc P σ ε α} {m : Memory P σ}
  {post post' : Except ε α → Memory P σ → Prop}

theorem wp_mono (h : wp env x post m) (hpost : ∀ r m', post r m' → post' r m') :
    wp env x post' m :=
  hpost _ _ h

theorem wp_bind {f : α → Proc P σ ε β} {post : Except ε β → Memory P σ → Prop} :
    wp env (x >>= f) post m ↔ wp env x (andThen env f post) m := by
  show post (Proc.bind x f env m).1 (Proc.bind x f env m).2 ↔
    andThen env f post (x env m).1 (x env m).2
  rw [Proc.bind]
  rcases x env m with ⟨_ | a, m'⟩ <;> exact Iff.rfl

@[simp] theorem andThen_ok {f : α → Proc P σ ε β} {post : Except ε β → Memory P σ → Prop} {a : α} :
    andThen env f post (.ok a) m ↔ wp env (f a) post m :=
  Iff.rfl

@[simp] theorem wp_pure {a : α} : wp env (Pure.pure a : Proc P σ ε α) post m ↔ post (.ok a) m :=
  Iff.rfl

@[simp] theorem wp_exit {e : ε} : wp env (exit e : Proc P σ ε α) post m ↔ post (.error e) m :=
  Iff.rfl

@[simp] theorem wp_ofExcept {r : Except ε α} :
    wp env (ofExcept r : Proc P σ ε α) post m ↔ post r m := by
  cases r <;> exact Iff.rfl

@[simp] theorem wp_read {post : Except ε σ → Memory P σ → Prop} :
    wp env read post m ↔ post (.ok m.state) m :=
  Iff.rfl

@[simp] theorem wp_update {f : σ → σ} {post : Except ε Unit → Memory P σ → Prop} :
    wp env (update f) post m ↔ post (.ok ()) { m with state := f m.state } :=
  Iff.rfl

@[simp] theorem wp_call {c : P.Call} {post : Except ε (P.Answer c) → Memory P σ → Prop} :
    wp env (call c) post m ↔
      post (.ok (env c m.trace)) { m with trace := m.trace ++ [⟨c, env c m.trace⟩] } :=
  Iff.rfl

theorem wp_attempt {catches : ε → Bool} {post : Except ε (Except ε α) → Memory P σ → Prop} :
    wp env (attempt catches x) post m ↔
      wp env x (fun r m' ↦
        match r with
        | .ok a => post (.ok (.ok a)) m'
        | .error e => if catches e then post (.ok (.error e)) m' else post (.error e) m') m := by
  rw [wp, wp, attempt]
  rcases x env m with ⟨e | a, m'⟩
  · dsimp only
    split <;> exact Iff.rfl
  · exact Iff.rfl

end Rules

/-! ### What stands before an event -/

/-- Of every event, `Q` says what stands before it. -/
def EachAfter (Q : List (Event P) → Event P → Prop) : List (Event P) → List (Event P) → Prop
  | _, [] => True
  | before, e :: rest => Q before e ∧ EachAfter Q (before ++ [e]) rest

variable {Q : List (Event P) → Event P → Prop}

theorem eachAfter_append {before xs ys : List (Event P)} :
    EachAfter Q before (xs ++ ys) ↔ EachAfter Q before xs ∧ EachAfter Q (before ++ xs) ys := by
  induction xs generalizing before with
  | nil => simp [EachAfter]
  | cons e xs ih => simp [EachAfter, ih, and_assoc]

theorem EachAfter.split {before pre post : List (Event P)} {e : Event P}
    (h : EachAfter Q before (pre ++ e :: post)) : Q (before ++ pre) e :=
  (eachAfter_append.mp h).2.1

/-! ### What a procedure makes of the state -/

/-- However `x` ends, the state it found is in `R` to the one it leaves. -/
def Within (R : σ → σ → Prop) (x : Proc P σ ε α) : Prop := ∀ env m, R m.state (x env m).2.state

/-- Where `x` ends with a value, the state it found is in `S` to the one it leaves. -/
def Makes (S : σ → σ → Prop) (x : Proc P σ ε α) : Prop :=
  ∀ env m a, (x env m).1 = .ok a → S m.state (x env m).2.state

theorem exit_bind (e : ε) (f : α → Proc P σ ε β) : (exit e >>= f) = exit e := rfl

theorem read_bind (f : σ → Proc P σ ε β) (env : Environment P) (m : Memory P σ) :
    (read >>= f) env m = f m.state env m :=
  rfl

theorem bind_of_ok {x : Proc P σ ε α} {f : α → Proc P σ ε β} {env : Environment P}
    {m m' : Memory P σ} {a : α} (h : x env m = (.ok a, m')) : (x >>= f) env m = f a env m' := by
  show Proc.bind x f env m = _
  rw [Proc.bind, h]

theorem bind_of_error {x : Proc P σ ε α} {f : α → Proc P σ ε β} {env : Environment P}
    {m m' : Memory P σ} {e : ε} (h : x env m = (.error e, m')) :
    (x >>= f) env m = (.error e, m') := by
  show Proc.bind x f env m = _
  rw [Proc.bind, h]

theorem bind_assoc {γ : Type} (x : Proc P σ ε α) (f : α → Proc P σ ε β) (g : β → Proc P σ ε γ) :
    (x >>= f >>= g) = x >>= fun a ↦ f a >>= g := by
  funext env m
  rcases h : x env m with ⟨e | a, m'⟩
  · rw [bind_of_error (bind_of_error h), bind_of_error h]
  · rw [bind_of_ok h]
    rcases hf : f a env m' with ⟨e | b, m''⟩
    · rw [bind_of_error ((bind_of_ok h).trans hf), bind_of_error hf]
    · rw [bind_of_ok ((bind_of_ok h).trans hf), bind_of_ok hf]

section Within

variable {R S : σ → σ → Prop} {x y : Proc P σ ε α} {f : α → Proc P σ ε β}

section Refl

variable [Std.Refl R]

theorem within_pure (a : α) : Within R (Pure.pure a : Proc P σ ε α) :=
  fun _ m ↦ Std.Refl.refl m.state

theorem within_exit (e : ε) : Within R (exit e : Proc P σ ε α) := fun _ m ↦ Std.Refl.refl m.state

theorem within_read : Within R (read : Proc P σ ε σ) := fun _ m ↦ Std.Refl.refl m.state

theorem within_call (c : P.Call) : Within R (call c : Proc P σ ε (P.Answer c)) :=
  fun _ m ↦ Std.Refl.refl m.state

end Refl

theorem within_update {g : σ → σ} (h : ∀ s, R s (g s)) : Within R (update g : Proc P σ ε Unit) :=
  fun _ m ↦ h m.state

theorem Within.ite {c : Prop} [Decidable c] (hx : Within R x) (hy : Within R y) :
    Within R (if c then x else y) := by
  split
  · exact hx
  · exact hy

theorem Within.attempt {catches : ε → Bool} (hx : Within R x) : Within R (attempt catches x) := by
  intro env m
  have h := hx env m
  rw [Effect.attempt]
  rcases hres : x env m with ⟨e | a, m'⟩
  · rw [hres] at h
    dsimp only
    split <;> exact h
  · rw [hres] at h
    exact h

section Trans

variable [IsTrans σ R]

theorem Within.bind (hx : Within R x) (hf : ∀ a, Within R (f a)) : Within R (x >>= f) := by
  intro env m
  have h := hx env m
  rcases hres : x env m with ⟨e | a, m'⟩
  · rw [hres] at h
    rwa [bind_of_error hres]
  · rw [hres] at h
    rw [bind_of_ok hres]
    exact IsTrans.trans _ _ _ h (hf a env m')

/-- A step that is made under a condition, before what follows. -/
theorem Within.when {y : Proc P σ ε β} {c : Prop} [Decidable c] (hx : Within R x)
    (hy : Within R y) : Within R (if c then x >>= fun _ ↦ y else y) :=
  (hx.bind fun _ ↦ hy).ite hy

end Trans

theorem makes_exit (e : ε) : Makes S (exit e : Proc P σ ε α) := by
  intro env m a h
  cases h

theorem Makes.ite {c : Prop} [Decidable c] (hx : Makes S x) (hy : Makes S y) :
    Makes S (if c then x else y) := by
  split
  · exact hx
  · exact hy

theorem Within.makes (h : Within R x) : Makes R x := fun env m _ _ ↦ h env m

/-- What two procedures bring about, one after the other. -/
theorem Makes.bind {T U : σ → σ → Prop} (htrans : ∀ s t u, S s t → T t u → U s u)
    (hx : Makes S x) (hf : ∀ a, Makes T (f a)) : Makes U (x >>= f) := by
  intro env m b h
  have hmakes := hx env m
  rcases hres : x env m with ⟨e | a, m'⟩
  · rw [bind_of_error hres] at h
    cases h
  · rw [hres] at hmakes
    rw [bind_of_ok hres] at h ⊢
    exact htrans _ _ _ (hmakes a rfl) (hf a env m' b h)

end Within

end Effect
