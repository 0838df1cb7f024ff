import Mathlib.Data.List.Forall2
import Mathlib.Data.List.Induction

/-!
# Hash chains

Rows in sequence, each with its place, the hash of the row before it and its own hash, which covers
its place, that hash and its content. The hash is not keyed, so whoever can rewrite a row and every
row after it leaves a chain; what the chain shows is that a row which stands unchanged has nothing
changed before it.
-/

namespace HashChain

variable {ρ δ : Type*}

/-- Where a row keeps its place, the hash before it and its own, and what its content hashes to. -/
structure Format (ρ δ : Type*) where
  seq : ρ → ℕ
  prev : ρ → δ
  hash : ρ → δ
  digest : ρ → Option δ

/-- The row stands at place `n`, after the hash `e`, and hashes to its own hash. -/
structure Follows (F : Format ρ δ) (n : ℕ) (e : δ) (r : ρ) : Prop where
  seq : F.seq r = n
  prev : F.prev r = e
  digest : F.digest r = some (F.hash r)

/-- The rows are linked, from place `n` and the hash `e` on. -/
inductive Linked (F : Format ρ δ) : ℕ → δ → List ρ → Prop
  | nil (n : ℕ) (e : δ) : Linked F n e []
  | cons {n : ℕ} {e : δ} {r : ρ} {rows : List ρ} (head : Follows F n e r)
      (tail : Linked F (n + 1) (F.hash r) rows) : Linked F n e (r :: rows)

/-- The hash that the next row must name. -/
def lastHash (F : Format ρ δ) (e : δ) : List ρ → δ
  | [] => e
  | r :: rows => lastHash F (F.hash r) rows

variable {F : Format ρ δ} {n : ℕ} {e : δ} {rows rows' : List ρ} {r r' : ρ}

@[simp] theorem lastHash_append_singleton : lastHash F e (rows ++ [r]) = F.hash r := by
  induction rows generalizing e with
  | nil => rfl
  | cons _ rows ih => exact ih

/-- Linked rows, cut anywhere. -/
theorem linked_append : Linked F n e (rows ++ rows') ↔
    Linked F n e rows ∧ Linked F (n + rows.length) (lastHash F e rows) rows' := by
  induction rows generalizing n e with
  | nil => exact ⟨fun h ↦ ⟨.nil n e, h⟩, fun h ↦ h.2⟩
  | cons r rows ih =>
    have hlength : n + (r :: rows).length = n + 1 + rows.length := by
      rw [List.length_cons]
      omega
    rw [hlength]
    constructor
    · intro h
      cases h with
      | cons head tail =>
        obtain ⟨hrows, hrows'⟩ := ih.mp tail
        exact ⟨.cons head hrows, hrows'⟩
    · rintro ⟨h, hrows'⟩
      cases h with
      | cons head tail => exact .cons head (ih.mpr ⟨tail, hrows'⟩)

theorem Linked.concat (h : Linked F n e rows)
    (hr : Follows F (n + rows.length) (lastHash F e rows) r) : Linked F n e (rows ++ [r]) :=
  linked_append.mpr ⟨h, .cons hr (.nil _ _)⟩

/-- A row of a chain, with the rows before it. -/
theorem Linked.follows (h : Linked F n e (rows ++ r :: rows')) :
    Follows F (n + rows.length) (lastHash F e rows) r := by
  cases (linked_append.mp h).2 with
  | cons head _ => exact head

theorem Linked.digest_eq (h : Linked F n e rows) (hr : r ∈ rows) :
    F.digest r = some (F.hash r) := by
  obtain ⟨before, after, rfl⟩ := List.append_of_mem hr
  exact h.follows.digest

/-- The places of a chain go up. -/
theorem Linked.pairwise (h : Linked F n e rows) :
    rows.Pairwise (fun a b ↦ F.seq a < F.seq b) ∧ ∀ r ∈ rows, n ≤ F.seq r := by
  induction h with
  | nil => exact ⟨.nil, nofun⟩
  | @cons n e r rows head _ ih =>
    obtain ⟨hpair, hle⟩ := ih
    constructor
    · refine .cons (fun b hb ↦ ?_) hpair
      have := hle b hb
      have := head.seq
      omega
    · intro b hb
      rcases List.mem_cons.mp hb with rfl | hb
      · exact Nat.le_of_eq head.seq.symm
      · have := hle b hb
        omega

section Fork

variable {Same : ρ → ρ → Prop}
  (hsame : ∀ r ∈ rows, ∀ r' ∈ rows', F.hash r = F.hash r' → Same r r')
  (hplace : ∀ r r', Same r r' → F.seq r = F.seq r' ∧ F.prev r = F.prev r')

include hsame hplace

/-- Where two chains from one start share a hash, they share the rows up to it. -/
theorem forall₂_of_hash_eq {before before' after after' : List ρ} (h : Linked F n e rows)
    (h' : Linked F n e rows') (hrows : rows = before ++ r :: after)
    (hrows' : rows' = before' ++ r' :: after') (hhash : F.hash r = F.hash r') :
    List.Forall₂ Same (before ++ [r]) (before' ++ [r']) := by
  have key := hsame r (hrows ▸ List.mem_append_right _ List.mem_cons_self) r'
    (hrows' ▸ List.mem_append_right _ List.mem_cons_self) hhash
  have hf := (hrows ▸ h).follows
  have hf' := (hrows' ▸ h').follows
  obtain ⟨hseq, hprev⟩ := hplace r r' key
  have hlength : before.length = before'.length := by
    have := hf.seq
    have := hf'.seq
    omega
  -- Down to the start: the rows before name one hash, so the rows before those do.
  induction before using List.reverseRecOn generalizing before' r r' after after' with
  | nil =>
    obtain rfl := List.eq_nil_of_length_eq_zero hlength.symm
    exact .cons key .nil
  | append_singleton before b ih =>
    rcases List.eq_nil_or_concat before' with rfl | ⟨front, b', rfl⟩
    · simp at hlength
    rw [List.concat_eq_append] at *
    have hb : rows = before ++ b :: r :: after := by rw [hrows]; simp
    have hb' : rows' = front ++ b' :: r' :: after' := by rw [hrows']; simp
    have hbhash : F.hash b = F.hash b' := by
      have hlast := hf.prev
      have hlast' := hf'.prev
      rw [lastHash_append_singleton] at hlast hlast'
      rw [← hlast, hprev, hlast']
    have hbsame := hsame b (hb ▸ List.mem_append_right _ List.mem_cons_self) b'
      (hb' ▸ List.mem_append_right _ List.mem_cons_self) hbhash
    have hfb := (hb ▸ h).follows
    have hfb' := (hb' ▸ h').follows
    obtain ⟨hbseq, hbprev⟩ := hplace b b' hbsame
    refine List.rel_append (ih hb hb' hbhash hbsame hfb hfb' hbseq hbprev ?_) (.cons key .nil)
    rw [List.length_append, List.length_append] at hlength
    simpa using hlength

/-- Of two chains from one start, the second has the first rows of the first, up to a place from
which on none of its rows has a hash of the first. -/
theorem fork (h : Linked F n e rows) (h' : Linked F n e rows') :
    ∃ k ≤ rows'.length, List.Forall₂ Same (rows.take k) (rows'.take k) ∧
      ∀ r ∈ rows, ∀ r' ∈ rows'.drop k, F.hash r ≠ F.hash r' := by
  induction rows' using List.reverseRecOn with
  | nil => exact ⟨0, Nat.le_refl _, .nil, nofun⟩
  | append_singleton front r' ih =>
    by_cases hshared : ∃ r ∈ rows, F.hash r = F.hash r'
    · obtain ⟨r, hr, hhash⟩ := hshared
      obtain ⟨before, after, hrows⟩ := List.append_of_mem hr
      have hall := forall₂_of_hash_eq hsame hplace h h' hrows rfl hhash
      refine ⟨(front ++ [r']).length, Nat.le_refl _, ?_, ?_⟩
      · have hsplit : rows = (before ++ [r]) ++ after := by rw [hrows]; simp
        rw [List.take_length, ← hall.length_eq, hsplit, List.take_left]
        exact hall
      · rw [List.drop_length]
        exact nofun
    · obtain ⟨k, hk, hall, hnone⟩ := ih
        (fun a ha b hb ↦ hsame a ha b (List.mem_append_left _ hb)) (linked_append.mp h').1
      refine ⟨k, Nat.le_trans hk (by simp), ?_, fun r hr b hb ↦ ?_⟩
      · rwa [List.take_append_of_le_length hk]
      · rw [List.drop_append_of_le_length hk] at hb
        rcases List.mem_append.mp hb with hb | hb
        · exact hnone r hr b hb
        · rw [List.mem_singleton.mp hb]
          exact fun heq ↦ hshared ⟨r, hr, heq⟩

end Fork

end HashChain
