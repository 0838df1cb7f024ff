import QAuth.Foundation.Keyspace
import QAuth.Foundation.Run

/-!
# Session epochs behind their cache

When a user's password was last reset, read through a cache (`session-epochs.ts`). A read takes the
cache first and the row on a miss, and then fills the cache where it is empty; a reset publishes the
epoch that it committed over whatever the cache holds. Everything here is about one user; any number
of nodes read, reset and publish at once, and every command of theirs takes effect at a moment of
its own.
-/

namespace QAuth.Sessions.Epochs

open Keyspace Transition

/-- When the password was last reset, where it was. -/
abbrev Epoch := Option ℕ

/-- An epoch no earlier than a reset. -/
def Reaches (epoch : Epoch) (advancedAt : ℕ) : Prop := ∃ n, epoch = some n ∧ advancedAt ≤ n

instance (epoch : Epoch) (advancedAt : ℕ) : Decidable (Reaches epoch advancedAt) :=
  decidable_of_iff (epoch.any (advancedAt ≤ ·) = true) (by cases epoch <;> simp [Reaches])

/-- The row, the cache, and what is under way: publishes by their epochs, and reads by the publishes
that had completed when they started. -/
structure State where
  now : ℕ
  /-- `user_session_epochs.advanced_at`. -/
  row : Epoch
  cache : Option (Held Epoch)
  /-- Committed, and not yet published. -/
  unsent : List ℕ
  /-- Written to the cache, without an answer yet. -/
  landed : List ℕ
  completed : List ℕ
  /-- Reads whose cache read is on its way. -/
  reading : List (List ℕ)
  /-- Reads that the cache gave no answer. -/
  missed : List (List ℕ)
  /-- Fills on their way. -/
  fills : List Epoch
  /-- What reads answered. -/
  answers : List (List ℕ × Epoch)

/-- What may happen. -/
inductive Action
  | tick (duration : ℕ)
  /-- A reset commits, at a reading of some node's clock. -/
  | reset (at' : ℕ)
  | publishLands (advancedAt : ℕ)
  | publishCompletes (advancedAt : ℕ)
  | lastReset
  | cacheRead (call : List ℕ)
  /-- The cache read is given up. -/
  | cacheLate (call : List ℕ)
  | storeRead (call : List ℕ)
  | fillLands (epoch : Epoch)

/-- `greatest(advanced_at, excluded.advanced_at)`. -/
def advance (row : Epoch) (at' : ℕ) : ℕ := row.elim at' (max · at')

/-- The step of the system, with the lifetime of a cached epoch. -/
def step (ttl : ℕ) (s : State) : Action → Option State
  | .tick duration => some { s with now := s.now + duration }
  | .reset at' =>
    some { s with row := some (advance s.row at'), unsent := advance s.row at' :: s.unsent }
  | .publishLands advancedAt =>
    if advancedAt ∈ s.unsent then
      some { s with
        unsent := s.unsent.erase advancedAt
        landed := advancedAt :: s.landed
        cache := set s.now ttl (some advancedAt) }
    else none
  | .publishCompletes advancedAt =>
    if advancedAt ∈ s.landed then
      some { s with
        landed := s.landed.erase advancedAt
        completed := advancedAt :: s.completed }
    else none
  | .lastReset => some { s with reading := s.completed :: s.reading }
  | .cacheRead call =>
    if call ∈ s.reading then
      match get s.now s.cache with
      | some epoch =>
        some { s with reading := s.reading.erase call, answers := (call, epoch) :: s.answers }
      | none => some { s with reading := s.reading.erase call, missed := call :: s.missed }
    else none
  | .cacheLate call =>
    if call ∈ s.reading then
      some { s with reading := s.reading.erase call, missed := call :: s.missed }
    else none
  | .storeRead call =>
    if call ∈ s.missed then
      some { s with
        missed := s.missed.erase call
        fills := s.row :: s.fills
        answers := (call, s.row) :: s.answers }
    else none
  | .fillLands epoch =>
    if epoch ∈ s.fills then
      some { s with
        fills := s.fills.erase epoch
        cache := setNew s.now ttl epoch s.cache }
    else none

/-- At first nothing is cached and nothing under way. -/
def system (ttl : ℕ) : System State Action where
  initial s := ∃ now row, s = ⟨now, row, none, [], [], [], [], [], [], []⟩
  step := step ttl

/-- The publishes that took effect. -/
def State.published (s : State) : List ℕ := s.landed ++ s.completed

/-- A publish lands after no publish of a later epoch, and a fill of an empty cache carries no
earlier epoch than was published. -/
def InOrder (s : State) : Action → Prop
  | .publishLands advancedAt => ∀ e ∈ s.published, e ≤ advancedAt
  | .fillLands epoch => get s.now s.cache = none → ∀ e ∈ s.published, Reaches epoch e
  | _ => True

/-- Every read has answered an epoch no earlier than each publish that completed before it
started. -/
def AnswersReach (s : State) : Prop :=
  ∀ answer ∈ s.answers, ∀ e ∈ answer.1, Reaches answer.2 e

/-! ### Steps in order -/

/-- What every step in order keeps. -/
structure Ordered (s : State) : Prop where
  row : ∀ e ∈ s.unsent ++ s.published, Reaches s.row e
  cache : ∀ epoch, get s.now s.cache = some epoch → ∀ e ∈ s.published, Reaches epoch e
  calls : ∀ call ∈ s.reading ++ s.missed, call ⊆ s.completed
  answers : AnswersReach s

theorem reaches_some {n e : ℕ} : Reaches (some n) e ↔ e ≤ n := by simp [Reaches]

theorem Reaches.advance {row : Epoch} {e : ℕ} (h : Reaches row e) (at' : ℕ) :
    e ≤ advance row at' := by
  obtain ⟨n, rfl, hle⟩ := h
  exact le_trans hle (le_max_left _ _)

section Steps

variable {ttl : ℕ} {s t : State} {a : Action}

theorem Ordered.step (httl : 0 < ttl) (H : Ordered s) (hin : InOrder s a)
    (hstep : Epochs.step ttl s a = some t) : Ordered t := by
  obtain ⟨hrow, hcache, hcalls, hanswers⟩ := H
  have hanswer : ∀ call ∈ s.reading ++ s.missed, ∀ epoch : Epoch,
      (∀ e ∈ s.published, Reaches epoch e) → ∀ answer ∈ (call, epoch) :: s.answers,
        ∀ e ∈ answer.1, Reaches answer.2 e := by
    intro call hcall epoch hreach answer hmem e he
    rcases List.mem_cons.mp hmem with rfl | hmem
    · exact hreach e (List.mem_append_right _ (hcalls call hcall he))
    · exact hanswers answer hmem e he
  cases a with
  | tick duration =>
    obtain rfl := Option.some.inj hstep
    exact ⟨hrow, fun epoch hget ↦ hcache epoch (get_of_le (Nat.le_add_right _ _) hget), hcalls,
      hanswers⟩
  | reset at' =>
    obtain rfl := Option.some.inj hstep
    refine ⟨fun e he ↦ reaches_some.mpr ?_, hcache, hcalls, hanswers⟩
    rcases List.mem_cons.mp he with rfl | he
    · exact le_rfl
    · exact (hrow e he).advance at'
  | publishLands advancedAt =>
    rw [Epochs.step, Option.ite_none_right_eq_some] at hstep
    obtain ⟨hmem, heq⟩ := hstep
    obtain rfl := Option.some.inj heq
    refine ⟨fun e he ↦ hrow e ?_, fun epoch hget e he ↦ ?_, hcalls, hanswers⟩
    · simp only [State.published, List.mem_append, List.mem_cons] at he ⊢
      rcases he with he | (rfl | he) | he
      · exact .inl (List.mem_of_mem_erase he)
      · exact .inl hmem
      · exact .inr (.inl he)
      · exact .inr (.inr he)
    · obtain rfl := Option.some.inj (hget.symm.trans (get_set_self httl))
      rcases List.mem_cons.mp he with rfl | he
      · exact reaches_some.mpr le_rfl
      · exact reaches_some.mpr (hin e he)
  | publishCompletes advancedAt =>
    rw [Epochs.step, Option.ite_none_right_eq_some] at hstep
    obtain ⟨hmem, heq⟩ := hstep
    obtain rfl := Option.some.inj heq
    have hsame : ∀ e ∈ s.landed.erase advancedAt ++ advancedAt :: s.completed,
        e ∈ s.published := by
      intro e he
      rcases List.mem_append.mp he with he | he
      · exact List.mem_append_left _ (List.mem_of_mem_erase he)
      · rcases List.mem_cons.mp he with rfl | he
        · exact List.mem_append_left _ hmem
        · exact List.mem_append_right _ he
    refine ⟨fun e he ↦ hrow e ?_, fun epoch hget e he ↦ hcache epoch hget e (hsame e he), ?_,
      hanswers⟩
    · rcases List.mem_append.mp he with he | he
      · exact List.mem_append_left _ he
      · exact List.mem_append_right _ (hsame e he)
    · exact fun call hcall ↦ List.Subset.trans (hcalls call hcall) (List.subset_cons_self _ _)
  | lastReset =>
    obtain rfl := Option.some.inj hstep
    refine ⟨hrow, hcache, fun call hcall ↦ ?_, hanswers⟩
    rcases List.mem_cons.mp hcall with rfl | hcall
    · exact List.Subset.refl _
    · exact hcalls call hcall
  | cacheRead call =>
    rw [Epochs.step, Option.ite_none_right_eq_some] at hstep
    obtain ⟨hmem, hstep⟩ := hstep
    have hsub : ∀ c ∈ s.reading.erase call, c ∈ s.reading := fun c ↦ List.mem_of_mem_erase
    cases hget : get s.now s.cache with
    | some epoch =>
      rw [hget] at hstep
      obtain rfl := Option.some.inj hstep
      refine ⟨hrow, hcache, fun c hc ↦ hcalls c ?_,
        hanswer call (List.mem_append_left _ hmem) epoch (hcache epoch hget)⟩
      rcases List.mem_append.mp hc with hc | hc
      · exact List.mem_append_left _ (hsub c hc)
      · exact List.mem_append_right _ hc
    | none =>
      rw [hget] at hstep
      obtain rfl := Option.some.inj hstep
      refine ⟨hrow, hcache, fun c hc ↦ hcalls c ?_, hanswers⟩
      rcases List.mem_append.mp hc with hc | hc
      · exact List.mem_append_left _ (hsub c hc)
      · rcases List.mem_cons.mp hc with rfl | hc
        · exact List.mem_append_left _ hmem
        · exact List.mem_append_right _ hc
  | cacheLate call =>
    rw [Epochs.step, Option.ite_none_right_eq_some] at hstep
    obtain ⟨hmem, heq⟩ := hstep
    obtain rfl := Option.some.inj heq
    refine ⟨hrow, hcache, fun c hc ↦ hcalls c ?_, hanswers⟩
    rcases List.mem_append.mp hc with hc | hc
    · exact List.mem_append_left _ (List.mem_of_mem_erase hc)
    · rcases List.mem_cons.mp hc with rfl | hc
      · exact List.mem_append_left _ hmem
      · exact List.mem_append_right _ hc
  | storeRead call =>
    rw [Epochs.step, Option.ite_none_right_eq_some] at hstep
    obtain ⟨hmem, heq⟩ := hstep
    obtain rfl := Option.some.inj heq
    refine ⟨hrow, hcache, fun c hc ↦ hcalls c ?_,
      hanswer call (List.mem_append_right _ hmem) s.row
        fun e he ↦ hrow e (List.mem_append_right _ he)⟩
    rcases List.mem_append.mp hc with hc | hc
    · exact List.mem_append_left _ hc
    · exact List.mem_append_right _ (List.mem_of_mem_erase hc)
  | fillLands epoch =>
    rw [Epochs.step, Option.ite_none_right_eq_some] at hstep
    obtain ⟨hmem, heq⟩ := hstep
    obtain rfl := Option.some.inj heq
    refine ⟨hrow, fun epoch' hget ↦ ?_, hcalls, hanswers⟩
    dsimp only at hget
    cases hempty : get s.now s.cache with
    | some held =>
      rw [setNew_of_some hempty] at hget
      exact hcache epoch' hget
    | none =>
      rw [setNew_of_none hempty, get_set_self httl] at hget
      obtain rfl := Option.some.inj hget
      exact hin hempty

theorem stale_of_not_inOrder (httl : 0 < ttl) (hin : ¬ InOrder s a) (hstep : step ttl s a = some t) :
    ∃ as u, Run (step ttl) t as u ∧ ¬ AnswersReach u := by
  -- the cache holds an epoch that a publish is later than
  obtain ⟨epoch, e, he, hreach, hget⟩ : ∃ epoch, ∃ e ∈ t.published, ¬ Reaches epoch e ∧
      get t.now t.cache = some epoch := by
    cases a with
    | publishLands advancedAt =>
      rw [step, Option.ite_none_right_eq_some] at hstep
      obtain ⟨hmem, heq⟩ := hstep
      obtain rfl := Option.some.inj heq
      rw [InOrder] at hin
      push Not at hin
      obtain ⟨e, he, hlt⟩ := hin
      refine ⟨some advancedAt, e, List.mem_cons_of_mem _ he, ?_, get_set_self httl⟩
      rw [reaches_some, not_le]
      exact hlt
    | fillLands epoch =>
      rw [step, Option.ite_none_right_eq_some] at hstep
      obtain ⟨hmem, heq⟩ := hstep
      obtain rfl := Option.some.inj heq
      rw [InOrder] at hin
      push Not at hin
      obtain ⟨hempty, e, he, hnot⟩ := hin
      refine ⟨epoch, e, he, hnot, ?_⟩
      show get s.now (setNew s.now ttl epoch s.cache) = some epoch
      rw [setNew_of_none hempty, get_set_self httl]
    | _ => exact absurd trivial hin
  -- once that publish has completed, the next read finds it
  have hread : ∀ s' : State, e ∈ s'.completed → get s'.now s'.cache = some epoch →
      ∃ as u, Run (step ttl) s' as u ∧ ¬ AnswersReach u := by
    intro s' he hget
    have hcall : step ttl { s' with reading := s'.completed :: s'.reading }
        (.cacheRead s'.completed) = some { s' with
          reading := (s'.completed :: s'.reading).erase s'.completed
          answers := (s'.completed, epoch) :: s'.answers } := by
      rw [step, if_pos (List.mem_cons_self ..)]
      dsimp only
      rw [hget]
    exact ⟨[.lastReset, .cacheRead s'.completed], _, .cons rfl (.cons hcall (.nil _)),
      fun hanswers ↦ hreach (hanswers _ (List.mem_cons_self ..) e he)⟩
  rcases List.mem_append.mp he with hlanded | hcompleted
  · obtain ⟨as, u, hrun, hstale⟩ := hread { t with
      landed := t.landed.erase e
      completed := e :: t.completed } (List.mem_cons_self ..) hget
    exact ⟨.publishCompletes e :: as, u, .cons (if_pos hlanded) hrun, hstale⟩
  · exact hread t hcompleted hget

end Steps

/-- In a run whose steps are in order, every read answers an epoch no earlier than each publish that
had completed when it started; and wherever a step is not in order, a read may come to answer an
earlier one. -/
theorem lastReset_reaches {ttl : ℕ} (httl : 0 < ttl) :
    (∀ s as t, (system ttl).initial s → Run.Along (step ttl) InOrder s as t → AnswersReach t) ∧
      ∀ s a t, ¬ InOrder s a → step ttl s a = some t →
        ∃ as u, Run (step ttl) t as u ∧ ¬ AnswersReach u := by
  refine ⟨fun s as t hinit hrun ↦ ?_, fun s a t hin hstep ↦ stale_of_not_inOrder httl hin hstep⟩
  have hordered : Ordered s := by
    obtain ⟨now, row, rfl⟩ := hinit
    refine ⟨?_, ?_, ?_, ?_⟩
    · simp [State.published]
    · simp
    · simp
    · simp [AnswersReach]
  exact (hrun.induct (fun _ _ _ H hin hstep ↦ H.step httl hin hstep) hordered).answers

/-- A reset, its publish, and a read that starts afterwards. -/
theorem lastReset_reaches_minute :
    ∃ t, Run.Along (step 60000) InOrder ⟨0, none, none, [], [], [], [], [], [], []⟩
      [.reset 5, .publishLands 5, .publishCompletes 5, .lastReset, .cacheRead [5]] t ∧
        t.answers = [([5], some 5)] ∧ AnswersReach t := by
  have hrun : Run.Along (step 60000) InOrder ⟨0, none, none, [], [], [], [], [], [], []⟩
      [.reset 5, .publishLands 5, .publishCompletes 5, .lastReset, .cacheRead [5]] _ :=
    .cons rfl trivial (.cons rfl (by simp [InOrder, State.published])
      (.cons rfl trivial (.cons rfl trivial (.cons rfl trivial (.nil _)))))
  exact ⟨_, hrun, rfl, (lastReset_reaches (by decide)).1 _ _ _ ⟨0, none, rfl⟩ hrun⟩

/-- Two resets whose publishes land in the other order: a read that starts after both completed
answers the earlier epoch. -/
theorem publish_of_earlier_reset :
    ∃ t, exec (step 60000) ⟨0, none, none, [], [], [], [], [], [], []⟩
      [.reset 5, .reset 9, .publishLands 9, .publishCompletes 9, .publishLands 5,
        .publishCompletes 5, .lastReset, .cacheRead [5, 9]] = some t ∧
        ([5, 9], some 5) ∈ t.answers ∧ ¬ AnswersReach t := by
  refine ⟨_, rfl, ?_, ?_⟩
  · decide
  · intro h
    exact absurd (h ([5, 9], some 5) (by decide) 9 (by decide)) (by decide)

end QAuth.Sessions.Epochs
