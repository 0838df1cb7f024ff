import QAuth.Foundation.Effect

/-!
# Programs that run one call at a time

A program calls ports and goes on with the answers. Unlike a procedure it can stop between two
calls, so that programs of several parties run in any order: what is left of a program is a program.

A rule about the calls of a program speaks of the events before each call: `wp` says that every
call the program can still make obeys the rule, and what holds once the program has ended.
-/

namespace Program

open Effect (Event Ports)

/-- What is left of a program: its end, or a call and what comes after each answer. -/
inductive Prog (P : Ports) (ε α : Type) : Type
  | done (result : Except ε α)
  | call (c : P.Call) (next : P.Answer c → Prog P ε α)

variable {P : Ports} {ε α β : Type}

namespace Prog

/-- One program after another. -/
def bind : Prog P ε α → (α → Prog P ε β) → Prog P ε β
  | .done (.ok a), f => f a
  | .done (.error e), _ => .done (.error e)
  | .call c next, f => .call c fun a ↦ (next a).bind f

instance : Monad (Prog P ε) where
  pure a := .done (.ok a)
  bind := bind

end Prog

/-- End with an error. -/
def throw (e : ε) : Prog P ε α := .done (.error e)

/-- A value, or an end with an error. -/
def ofExcept (r : Except ε α) : Prog P ε α := .done r

/-- Call a port. -/
def ask (c : P.Call) : Prog P ε (P.Answer c) := .call c fun a ↦ .done (.ok a)

/-- After the events of `trace`, every call of the program obeys `rule`, which sees the events
before it, and the program ends as `post` says. -/
def wp (rule : List (Event P) → P.Call → Prop) (trace : List (Event P)) :
    Prog P ε α → (Except ε α → List (Event P) → Prop) → Prop
  | .done result, post => post result trace
  | .call c next, post => rule trace c ∧ ∀ a, wp rule (trace ++ [⟨c, a⟩]) (next a) post

/-- Every call of the program obeys `rule`. -/
def Obeys (rule : List (Event P) → P.Call → Prop) (trace : List (Event P)) (p : Prog P ε α) :
    Prop :=
  wp rule trace p fun _ _ ↦ True

/-- What must hold after the first of two programs. -/
def andThen (rule : List (Event P) → P.Call → Prop) (f : α → Prog P ε β)
    (post : Except ε β → List (Event P) → Prop) : Except ε α → List (Event P) → Prop
  | .ok a, trace => wp rule trace (f a) post
  | .error e, trace => post (.error e) trace

section Rules

variable {rule rule' : List (Event P) → P.Call → Prop} {trace : List (Event P)} {p : Prog P ε α}
  {post post' : Except ε α → List (Event P) → Prop}

@[simp] theorem wp_done {result : Except ε α} :
    wp rule trace (.done result) post ↔ post result trace :=
  Iff.rfl

@[simp] theorem wp_call {c : P.Call} {next : P.Answer c → Prog P ε α} :
    wp rule trace (.call c next) post ↔
      rule trace c ∧ ∀ a, wp rule (trace ++ [⟨c, a⟩]) (next a) post :=
  Iff.rfl

@[simp] theorem wp_pure {a : α} : wp rule trace (pure a : Prog P ε α) post ↔ post (.ok a) trace :=
  Iff.rfl

@[simp] theorem wp_throw {e : ε} :
    wp rule trace (throw e : Prog P ε α) post ↔ post (.error e) trace :=
  Iff.rfl

@[simp] theorem wp_ofExcept {r : Except ε α} :
    wp rule trace (ofExcept r : Prog P ε α) post ↔ post r trace :=
  Iff.rfl

@[simp] theorem wp_ask {c : P.Call} {post : Except ε (P.Answer c) → List (Event P) → Prop} :
    wp rule trace (ask c) post ↔ rule trace c ∧ ∀ a, post (.ok a) (trace ++ [⟨c, a⟩]) :=
  Iff.rfl

@[simp] theorem andThen_ok {f : α → Prog P ε β} {post : Except ε β → List (Event P) → Prop}
    {a : α} : andThen rule f post (.ok a) trace ↔ wp rule trace (f a) post :=
  Iff.rfl

theorem wp_bind {f : α → Prog P ε β} {post : Except ε β → List (Event P) → Prop} :
    wp rule trace (p >>= f) post ↔ wp rule trace p (andThen rule f post) := by
  show wp rule trace (p.bind f) post ↔ _
  induction p generalizing trace with
  | done result => rcases result with e | a <;> exact Iff.rfl
  | call c next ih =>
    show (rule trace c ∧ ∀ a, wp rule _ ((next a).bind f) post) ↔ _
    rw [wp_call]
    exact and_congr_right fun _ ↦ forall_congr' fun a ↦ ih a

/-- A call, and what comes after its answer. -/
theorem wp_ask_bind {c : P.Call} {f : P.Answer c → Prog P ε β}
    {post : Except ε β → List (Event P) → Prop} :
    wp rule trace (ask c >>= f) post ↔
      rule trace c ∧ ∀ a, wp rule (trace ++ [⟨c, a⟩]) (f a) post := by
  rw [wp_bind]
  exact Iff.rfl

theorem wp_ofExcept_bind {r : Except ε α} {f : α → Prog P ε β}
    {post : Except ε β → List (Event P) → Prop} :
    wp rule trace (ofExcept r >>= f) post ↔ andThen rule f post r trace := by
  rw [wp_bind]
  exact Iff.rfl

theorem wp_mono (h : wp rule trace p post) (hpost : ∀ r tr, post r tr → post' r tr) :
    wp rule trace p post' := by
  induction p generalizing trace with
  | done result => exact hpost _ _ h
  | call c next ih => exact ⟨h.1, fun a ↦ ih a (h.2 a)⟩

/-- A program that obeys a rule goes on obeying it. -/
theorem Obeys.tail {c : P.Call} {next : P.Answer c → Prog P ε α}
    (h : Obeys rule trace (.call c next)) (a : P.Answer c) :
    Obeys rule (trace ++ [⟨c, a⟩]) (next a) :=
  h.2 a

theorem Obeys.head {c : P.Call} {next : P.Answer c → Prog P ε α}
    (h : Obeys rule trace (.call c next)) : rule trace c :=
  h.1

end Rules

end Program
