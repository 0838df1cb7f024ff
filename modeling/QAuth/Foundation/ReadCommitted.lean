import QAuth.Foundation.Locks
import QAuth.Foundation.Table

/-!
# A table under READ COMMITTED

A transaction keeps the versions of rows that it wrote to itself until it commits, and holds the
key of each of them. So the committed version of a row stays the one that a transaction wrote over,
as long as the transaction holds the key.
-/

namespace ReadCommitted

variable {κ ρ : Type*}

/-- What a transaction wrote and has not committed: for each key it wrote, the version it left,
`none` where it deleted the row. -/
abbrev Writes (κ ρ : Type*) := List (κ × Option ρ)

/-- The keys a transaction wrote. -/
def Writes.keys (ws : Writes κ ρ) : List κ := ws.map (·.1)

/-- The keys a transaction wrote, as it holds them. -/
def Writes.held (ws : Writes κ ρ) : List (κ × Locks.Mode) := ws.keys.map (·, .exclusive)

/-- Each version stands under its key, and no key was written twice. -/
structure Writes.Named (key : ρ → κ) (ws : Writes κ ρ) : Prop where
  nodup : ws.keys.Nodup
  named : ∀ k r, (k, some r) ∈ ws → key r = k

variable {key : ρ → κ} {rows : List ρ} {ws : Writes κ ρ} {k : κ} {r : ρ} {v : Option ρ}

theorem Writes.mem_keys : k ∈ ws.keys ↔ ∃ v, (k, v) ∈ ws := by
  simp [Writes.keys]

theorem Writes.mem_held {m : Locks.Mode} : (k, m) ∈ ws.held ↔ k ∈ ws.keys ∧ m = .exclusive := by
  simp [Writes.held, eq_comm]

theorem Writes.Named.nil : Writes.Named key ([] : Writes κ ρ) :=
  ⟨List.nodup_nil, nofun⟩

theorem Writes.Named.cons (h : ws.Named key) (hk : k ∉ ws.keys) (hv : ∀ r ∈ v, key r = k) :
    Writes.Named key ((k, v) :: ws) := by
  refine ⟨List.nodup_cons.mpr ⟨hk, h.nodup⟩, fun k' r hmem ↦ ?_⟩
  rcases List.mem_cons.mp hmem with heq | hmem
  · cases heq
    exact hv r rfl
  · exact h.named k' r hmem

/-! ### The committed version of a row -/

variable [DecidableEq κ]

/-- The committed version of a row. -/
def current (key : ρ → κ) (rows : List ρ) (k : κ) : Option ρ := rows.find? (key · = k)

/-- The rows once a transaction has committed what it wrote. -/
def commit (key : ρ → κ) (ws : Writes κ ρ) (rows : List ρ) : List ρ :=
  rows.filter (key · ∉ ws.keys) ++ ws.filterMap (·.2)

/-- The writes once `k` was written too, whatever the transaction wrote to it before. -/
def Writes.put (ws : Writes κ ρ) (k : κ) (v : Option ρ) : Writes κ ρ :=
  (k, v) :: ws.filter (·.1 ≠ k)

theorem Writes.mem_put {w : κ × Option ρ} :
    w ∈ ws.put k v ↔ w = (k, v) ∨ (w ∈ ws ∧ w.1 ≠ k) := by
  simp [Writes.put]

theorem Writes.mem_keys_put {k' : κ} : k' ∈ (ws.put k v).keys ↔ k' = k ∨ k' ∈ ws.keys := by
  by_cases hk : k' = k
  · simp [Writes.put, Writes.keys, hk]
  · simp [Writes.put, Writes.keys, hk]

theorem Writes.Named.put (h : ws.Named key) (hv : ∀ r ∈ v, key r = k) :
    (ws.put k v).Named key where
  nodup := by
    have hsub : (Writes.keys (ws.filter (·.1 ≠ k))).Sublist ws.keys :=
      List.filter_sublist.map _
    refine List.nodup_cons.mpr ⟨fun hmem ↦ ?_, hsub.nodup h.nodup⟩
    obtain ⟨w, hw, heq⟩ := List.mem_map.mp hmem
    exact of_decide_eq_true (List.mem_filter.mp hw).2 heq
  named k' r hmem := by
    rcases Writes.mem_put.mp hmem with heq | ⟨hmem, -⟩
    · cases heq
      exact hv r rfl
    · exact h.named k' r hmem

theorem current_eq_some_iff (hnodup : (rows.map key).Nodup) :
    current key rows k = some r ↔ r ∈ rows ∧ key r = k :=
  Table.find?_eq_some_iff hnodup

theorem mem_of_current (h : current key rows k = some r) : r ∈ rows ∧ key r = k :=
  ⟨List.mem_of_find?_eq_some h, by simpa using List.find?_some h⟩

theorem current_eq_none_iff : current key rows k = none ↔ ∀ r ∈ rows, key r ≠ k := by
  simp [current]

theorem current_of_mem (hnodup : (rows.map key).Nodup) (hr : r ∈ rows) :
    current key rows (key r) = some r :=
  (current_eq_some_iff hnodup).mpr ⟨hr, rfl⟩

/-! ### Commits -/

theorem mem_commit :
    r ∈ commit key ws rows ↔ (r ∈ rows ∧ key r ∉ ws.keys) ∨ ∃ k, (k, some r) ∈ ws := by
  simp [commit]

/-- What a transaction sees once it has written `k`. -/
theorem mem_commit_put (hws : ws.Named key) :
    r ∈ commit key (ws.put k v) rows ↔ (r ∈ commit key ws rows ∧ key r ≠ k) ∨ v = some r := by
  simp only [mem_commit, Writes.mem_keys_put, Writes.mem_put, not_or]
  constructor
  · rintro (⟨hr, hk, hws'⟩ | ⟨k', heq | ⟨hmem, hk⟩⟩)
    · exact .inl ⟨.inl ⟨hr, hws'⟩, hk⟩
    · cases heq
      exact .inr rfl
    · exact .inl ⟨.inr ⟨k', hmem⟩, by rw [hws.named k' r hmem]; exact hk⟩
  · rintro (⟨⟨hr, hws'⟩ | ⟨k', hmem⟩, hk⟩ | rfl)
    · exact .inl ⟨hr, hk, hws'⟩
    · exact .inr ⟨k', .inr ⟨hmem, by rw [← hws.named k' r hmem]; exact hk⟩⟩
    · exact .inr ⟨k, .inl rfl⟩

theorem nodup_commit (hnodup : (rows.map key).Nodup) (hws : ws.Named key) :
    ((commit key ws rows).map key).Nodup := by
  have hwritten : ((ws.filterMap (·.2)).map key).Sublist ws.keys := by
    have hnamed := hws.named
    clear hws
    induction ws with
    | nil => exact List.Sublist.slnil
    | cons w ws ih =>
      obtain ⟨k, v⟩ := w
      have ih := ih fun k' r hmem ↦ hnamed k' r (List.mem_cons_of_mem _ hmem)
      cases v with
      | none => exact ih.cons k
      | some r =>
        have hk : key r = k := hnamed k r List.mem_cons_self
        show (key r :: (ws.filterMap (·.2)).map key).Sublist (k :: Writes.keys ws)
        rw [hk]
        exact ih.cons_cons k
  rw [commit, List.map_append, List.nodup_append]
  refine ⟨(List.filter_sublist.map _).nodup hnodup, hwritten.nodup hws.nodup, ?_⟩
  rintro k hk k' hk' rfl
  obtain ⟨r, hr, rfl⟩ := List.mem_map.mp hk
  have hnot := (List.mem_filter.mp hr).2
  exact absurd (hwritten.subset hk') (by simpa using hnot)

/-- What a commit makes of a row it wrote. -/
theorem current_commit_of_mem (hnodup : (rows.map key).Nodup) (hws : ws.Named key)
    (hmem : (k, v) ∈ ws) : current key (commit key ws rows) k = v := by
  have hone : ∀ v', (k, v') ∈ ws → v' = v := fun v' hmem' ↦
    congrArg Prod.snd (Table.eq_of_key_eq hws.nodup hmem' hmem rfl)
  cases v with
  | some r =>
    refine (current_eq_some_iff (nodup_commit hnodup hws)).mpr ⟨?_, hws.named k r hmem⟩
    exact mem_commit.mpr (.inr ⟨k, hmem⟩)
  | none =>
    rw [current_eq_none_iff]
    rintro r hr rfl
    rcases mem_commit.mp hr with ⟨-, hnot⟩ | ⟨k', hmem'⟩
    · exact hnot (Writes.mem_keys.mpr ⟨none, hmem⟩)
    · obtain rfl := hws.named k' r hmem'
      cases hone _ hmem'

theorem current_commit_of_not_mem (hnodup : (rows.map key).Nodup) (hws : ws.Named key)
    (hk : k ∉ ws.keys) : current key (commit key ws rows) k = current key rows k := by
  refine Option.ext fun r ↦ ?_
  rw [current_eq_some_iff (nodup_commit hnodup hws), current_eq_some_iff hnodup, mem_commit]
  constructor
  · rintro ⟨⟨hr, -⟩ | ⟨k', hmem⟩, rfl⟩
    · exact ⟨hr, rfl⟩
    · obtain rfl := hws.named k' r hmem
      exact absurd (Writes.mem_keys.mpr ⟨_, hmem⟩) hk
  · rintro ⟨hr, rfl⟩
    exact ⟨.inl ⟨hr, hk⟩, rfl⟩

/-- A commit changes no row that another transaction holds. -/
theorem current_commit_of_held {held : List (κ × Locks.Mode)} {m : Locks.Mode}
    (hnodup : (rows.map key).Nodup) (hws : ws.Named key) (hheld : (k, m) ∈ held)
    (happart : Locks.Compatible ws.held held) :
    current key (commit key ws rows) k = current key rows k := by
  refine current_commit_of_not_mem hnodup hws fun hk ↦ ?_
  exact happart.not_mem (Writes.mem_held.mpr ⟨hk, rfl⟩) hheld

end ReadCommitted
