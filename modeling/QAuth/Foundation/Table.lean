import Mathlib.Data.List.Count
import Mathlib.Data.List.Nodup
import Mathlib.Data.List.Sort

/-!
# Tables of rows

A table is the list of its rows. The operations are those of a relational store: an update of
the rows that meet a predicate, an insert that leaves a row alone whose key is taken, and a
selection in the order of a key.
-/

namespace Table

variable {ρ κ : Type*}

section Update

variable {p : ρ → Bool} {f : ρ → ρ} {t : List ρ} {r : ρ}

/-- The table after `f` was applied to every row that meets `p`. -/
def updateWhere (p : ρ → Bool) (f : ρ → ρ) (t : List ρ) : List ρ :=
  t.map fun r ↦ if p r then f r else r

theorem mem_updateWhere :
    r ∈ updateWhere p f t ↔ ∃ r₀ ∈ t, (if p r₀ then f r₀ else r₀) = r := by
  simp [updateWhere]

/-- A row after an update is an old row the predicate left out, or an updated one. -/
theorem mem_updateWhere_cases (h : r ∈ updateWhere p f t) :
    (r ∈ t ∧ p r = false) ∨ ∃ r₀ ∈ t, p r₀ = true ∧ r = f r₀ := by
  obtain ⟨r₀, h₀, rfl⟩ := mem_updateWhere.mp h
  cases hp : p r₀ with
  | false => exact .inl ⟨by simpa [hp] using h₀, by simp [hp]⟩
  | true => exact .inr ⟨r₀, h₀, hp, by simp⟩

theorem mem_updateWhere_of_false (h : r ∈ t) (hp : p r = false) : r ∈ updateWhere p f t :=
  mem_updateWhere.mpr ⟨r, h, by simp [hp]⟩

theorem mem_updateWhere_of_true (h : r ∈ t) (hp : p r = true) : f r ∈ updateWhere p f t :=
  mem_updateWhere.mpr ⟨r, h, by simp [hp]⟩

/-- An update that keeps a column keeps the list of that column's values. -/
theorem map_updateWhere {key : ρ → κ} (h : ∀ r, key (f r) = key r) :
    (updateWhere p f t).map key = t.map key := by
  simp only [updateWhere, List.map_map]
  refine List.map_congr_left fun r _ ↦ ?_
  simp only [Function.comp_apply]
  split
  · exact h r
  · rfl

/-- An update changes nothing just when it leaves each row it finds as it was. -/
theorem updateWhere_eq_self_iff : updateWhere p f t = t ↔ ∀ r ∈ t, p r = true → f r = r := by
  induction t with
  | nil => simp [updateWhere]
  | cons r t ih =>
    simp only [updateWhere, List.map_cons, List.cons.injEq, List.forall_mem_cons] at ih ⊢
    rw [ih]
    refine and_congr_left fun _ ↦ ?_
    cases p r <;> simp

end Update

section Insert

variable [DecidableEq κ] {key : ρ → κ} {t rs : List ρ} {r x : ρ}

/-- The table after `r` was inserted, unless a row has its key already. -/
def insertNew (key : ρ → κ) (t : List ρ) (r : ρ) : List ρ :=
  if t.any (key · = key r) then t else t ++ [r]

/-- The table after the rows `rs` were inserted in turn, each unless its key is taken. -/
def insertAllNew (key : ρ → κ) (t rs : List ρ) : List ρ :=
  rs.foldl (insertNew key) t

theorem mem_insertNew_of_mem (h : x ∈ t) : x ∈ insertNew key t r := by
  unfold insertNew
  split
  · exact h
  · exact List.mem_append_left _ h

theorem mem_insertNew_cases (h : x ∈ insertNew key t r) : x ∈ t ∨ x = r := by
  unfold insertNew at h
  split at h
  · exact .inl h
  · simpa using h

theorem exists_mem_insertNew : ∃ x ∈ insertNew key t r, key x = key r := by
  unfold insertNew
  split
  · rename_i h
    simpa using h
  · exact ⟨r, by simp, rfl⟩

theorem nodup_insertNew (h : (t.map key).Nodup) : ((insertNew key t r).map key).Nodup := by
  unfold insertNew
  split
  · exact h
  · rename_i hr
    rw [List.map_append, List.map_singleton, List.nodup_append]
    refine ⟨h, List.nodup_singleton _, ?_⟩
    rintro _ hx _ hy rfl
    simp only [List.mem_singleton] at hy
    obtain ⟨y, hy', hk⟩ := List.mem_map.mp hx
    exact hr (List.any_eq_true.mpr ⟨y, hy', by simp [hk, hy]⟩)

/-- The inserts append some of the rows offered, in their order. -/
theorem insertAllNew_eq_append : ∃ new, insertAllNew key t rs = t ++ new ∧ new.Sublist rs := by
  induction rs generalizing t with
  | nil => exact ⟨[], by simp [insertAllNew], .slnil⟩
  | cons r rs ih =>
    obtain ⟨new, hnew, hsub⟩ : ∃ new, insertAllNew key (insertNew key t r) rs =
      insertNew key t r ++ new ∧ new.Sublist rs := ih
    change ∃ new, insertAllNew key (insertNew key t r) rs = t ++ new ∧ _
    by_cases h : t.any (key · = key r)
    · refine ⟨new, ?_, hsub.cons _⟩
      rw [hnew, insertNew, if_pos h]
    · refine ⟨r :: new, ?_, hsub.cons_cons _⟩
      rw [hnew, insertNew, if_neg h]
      simp

theorem mem_insertAllNew_of_mem (h : x ∈ t) : x ∈ insertAllNew key t rs := by
  obtain ⟨new, hnew, -⟩ : ∃ new, insertAllNew key t rs = t ++ new ∧ new.Sublist rs :=
    insertAllNew_eq_append
  rw [hnew]
  exact List.mem_append_left _ h

theorem mem_insertAllNew_cases (h : x ∈ insertAllNew key t rs) : x ∈ t ∨ x ∈ rs := by
  obtain ⟨new, hnew, hsub⟩ : ∃ new, insertAllNew key t rs = t ++ new ∧ new.Sublist rs :=
    insertAllNew_eq_append
  rw [hnew] at h
  exact (List.mem_append.mp h).imp_right (hsub.mem ·)

/-- After the inserts every key that was offered is in the table. -/
theorem exists_mem_insertAllNew (h : r ∈ rs) : ∃ x ∈ insertAllNew key t rs, key x = key r := by
  induction rs generalizing t with
  | nil => simp at h
  | cons r' rs ih =>
    rcases List.mem_cons.mp h with rfl | h
    · obtain ⟨x, hx, hk⟩ : ∃ x ∈ insertNew key t r, key x = key r := exists_mem_insertNew
      have hmem : x ∈ insertAllNew key (insertNew key t r) rs := mem_insertAllNew_of_mem hx
      exact ⟨x, hmem, hk⟩
    · exact ih h

/-- Inserts that skip a key already present keep the key unique. -/
theorem nodup_insertAllNew (h : (t.map key).Nodup) :
    ((insertAllNew key t rs).map key).Nodup := by
  induction rs generalizing t with
  | nil => exact h
  | cons r rs ih => exact ih (nodup_insertNew h)

end Insert

section Upsert

variable {β : Type*} [DecidableEq κ] {m : List (κ × β)} {k k' : κ} {v : β} {e : κ × β}

/-- The entries of a map once `k` has the value `v`. -/
def upsert (m : List (κ × β)) (k : κ) (v : β) : List (κ × β) :=
  m.filter (·.1 ≠ k) ++ [(k, v)]

theorem mem_upsert : e ∈ upsert m k v ↔ (e ∈ m ∧ e.1 ≠ k) ∨ e = (k, v) := by
  simp [upsert]

/-- A key that is set stays set. -/
theorem exists_mem_upsert (h : ∃ w, (k', w) ∈ m) : ∃ w, (k', w) ∈ upsert m k v := by
  obtain ⟨w, hw⟩ := h
  by_cases hk : k' = k
  · exact ⟨v, mem_upsert.mpr (.inr (by rw [hk]))⟩
  · exact ⟨w, mem_upsert.mpr (.inl ⟨hw, hk⟩)⟩

section Lookup

variable {κ : Type} [DecidableEq κ] {m : List (κ × β)} {k k' : κ} {v : β}

theorem lookup_filter_self : (m.filter (·.1 ≠ k)).lookup k = none := by
  rw [List.lookup_eq_none_iff]
  intro e he
  have hne : e.1 ≠ k := of_decide_eq_true (List.mem_filter.mp he).2
  exact bne_iff_ne.mpr hne.symm

theorem lookup_upsert_self : (upsert m k v).lookup k = some v := by
  rw [upsert, List.lookup_append, lookup_filter_self]
  simp

theorem lookup_upsert_ne (h : k' ≠ k) : (upsert m k v).lookup k' = m.lookup k' := by
  rw [upsert, List.lookup_append, List.lookup_cons]
  have hne : (k' == k) = false := by simpa using h
  rw [hne]
  induction m with
  | nil => rfl
  | cons e m ih =>
    obtain ⟨l, w⟩ := e
    rw [List.filter_cons, List.lookup_cons]
    by_cases hl : l = k
    · subst hl
      simpa [hne] using ih
    · simp only [ne_eq, hl, not_false_eq_true, decide_true, if_true, List.lookup_cons]
      cases k' == l <;> simp_all

end Lookup

end Upsert

/-- Two rows of a table whose key is unique agree as soon as their keys do. -/
theorem eq_of_key_eq {key : ρ → κ} {t : List ρ} {r x : ρ} (h : (t.map key).Nodup) (hr : r ∈ t)
    (hx : x ∈ t) (hk : key r = key x) : r = x :=
  List.inj_on_of_nodup_map h hr hx hk

/-- The row of a key, where rows have distinct keys. -/
theorem find?_eq_some_iff [DecidableEq κ] {key : ρ → κ} {t : List ρ} {r : ρ} {k : κ}
    (h : (t.map key).Nodup) : t.find? (key · = k) = some r ↔ r ∈ t ∧ key r = k := by
  constructor
  · intro hfind
    exact ⟨List.mem_of_find?_eq_some hfind, by simpa using List.find?_some hfind⟩
  · rintro ⟨hr, rfl⟩
    cases hfind : t.find? (key · = key r) with
    | none =>
      rw [List.find?_eq_none] at hfind
      exact absurd (decide_eq_true rfl) (hfind r hr)
    | some r' =>
      have hkey : key r' = key r := by simpa using List.find?_some hfind
      rw [eq_of_key_eq h (List.mem_of_find?_eq_some hfind) hr hkey]

/-- Fewer rows meet a stronger predicate, when a row that meets the weaker one fails it. -/
theorem countP_lt_countP {p q : ρ → Bool} {t : List ρ} {r : ρ} (hpq : ∀ x ∈ t, p x → q x)
    (hr : r ∈ t) (hq : q r = true) (hp : p r = false) : t.countP p < t.countP q := by
  have hfilter : (t.filter q).countP p = t.countP p := by
    rw [List.countP_filter]
    refine List.countP_congr fun x hx ↦ ?_
    simpa using hpq x hx
  rw [← hfilter, List.countP_eq_length_filter (p := q), List.countP_lt_length_iff]
  exact ⟨r, List.mem_filter.mpr ⟨hr, hq⟩, by simp [hp]⟩

/-- When the row of one key changes, the keys whose row meets a predicate change by that key. -/
theorem countP_update [DecidableEq κ] {ks : List κ} (hnodup : ks.Nodup) {k : κ} (hk : k ∈ ks)
    (rows : κ → ρ) (p : ρ → Bool) (r : ρ) :
    ks.countP (fun i ↦ p (Function.update rows k r i)) + (p (rows k)).toNat =
      ks.countP (fun i ↦ p (rows i)) + (p r).toNat := by
  induction ks with
  | nil => simp at hk
  | cons i ks ih =>
    rw [List.nodup_cons] at hnodup
    simp only [List.countP_cons]
    by_cases hik : i = k
    · subst hik
      have hrest : ks.countP (fun j ↦ p (Function.update rows i r j)) =
          ks.countP fun j ↦ p (rows j) := by
        refine List.countP_congr fun j hj ↦ ?_
        rw [Function.update_of_ne (ne_of_mem_of_not_mem hj hnodup.1)]
      rw [hrest, Function.update_self]
      cases p (rows i) <;> cases p r <;> simp
    · have hrest := ih hnodup.2 ((List.mem_cons.mp hk).resolve_left (Ne.symm hik))
      rw [Function.update_of_ne hik]
      omega

/-- Values that name the rows they come from are different. -/
theorem nodup_filterMap_of_key {key : ρ → κ} {f : ρ → Option κ} {t : List ρ}
    (h : (t.map key).Nodup) (hf : ∀ r ∈ t, ∀ k ∈ f r, key r = k) : (t.filterMap f).Nodup := by
  induction t with
  | nil => exact List.nodup_nil
  | cons r t ih =>
    have hrest := fun r' hr' ↦ hf r' (List.mem_cons_of_mem _ hr')
    obtain ⟨hnot, hnodup⟩ := List.nodup_cons.mp h
    cases hr : f r with
    | none =>
      rw [List.filterMap_cons_none hr]
      exact ih hnodup hrest
    | some k =>
      rw [List.filterMap_cons_some hr]
      refine List.nodup_cons.mpr ⟨fun hmem ↦ hnot ?_, ih hnodup hrest⟩
      obtain ⟨r', hr', hk⟩ := List.mem_filterMap.mp hmem
      rw [hf r List.mem_cons_self k hr, ← hrest r' hr' k hk]
      exact List.mem_map_of_mem hr'

/-- Two rows with one value of a unique column that may be empty agree. -/
theorem eq_of_filterMap_eq {f : ρ → Option κ} {t : List ρ} {r x : ρ} {k : κ}
    (h : (t.filterMap f).Nodup) (hr : r ∈ t) (hx : x ∈ t) (hfr : f r = some k)
    (hfx : f x = some k) : r = x := by
  induction t with
  | nil => cases hr
  | cons y t ih =>
    cases hy : f y with
    | none =>
      rw [List.filterMap_cons_none hy] at h
      have hne : ∀ z, f z = some k → z ≠ y := by
        rintro z hz rfl
        rw [hy] at hz
        cases hz
      exact ih h ((List.mem_cons.mp hr).resolve_left (hne r hfr))
        ((List.mem_cons.mp hx).resolve_left (hne x hfx))
    | some j =>
      rw [List.filterMap_cons_some hy] at h
      obtain ⟨hnot, hnodup⟩ := List.nodup_cons.mp h
      -- a later row with the value of the first one would repeat it
      have hlater : ∀ z ∈ t, f z = some k → k ≠ j := by
        rintro z hz hfz rfl
        exact hnot (List.mem_filterMap.mpr ⟨z, hz, hfz⟩)
      rcases List.mem_cons.mp hr with rfl | hr' <;> rcases List.mem_cons.mp hx with rfl | hx'
      · rfl
      · exact absurd (Option.some.inj (hfr.symm.trans hy)) (hlater x hx' hfx)
      · exact absurd (Option.some.inj (hfx.symm.trans hy)) (hlater r hr' hfr)
      · exact ih hnodup hr' hx'

/-- A selection that keeps a column keeps the order of that column's values. -/
theorem sublist_map_filterMap {key : ρ → κ} {f : ρ → Option ρ} {t : List ρ}
    (h : ∀ r r', f r = some r' → key r' = key r) :
    ((t.filterMap f).map key).Sublist (t.map key) := by
  induction t with
  | nil => exact .slnil
  | cons r t ih =>
    rw [List.filterMap_cons, List.map_cons]
    split
    · exact .cons _ ih
    · rename_i r' hr
      rw [List.map_cons, h r r' hr]
      exact .cons_cons _ ih

/-- The rows under each of some keys, one key after the other, are the rows. -/
theorem perm_flatMap_filter [DecidableEq κ] {key : ρ → κ} {ks : List κ} {t : List ρ}
    (hks : ks.Nodup) (h : ∀ r ∈ t, key r ∈ ks) :
    (ks.flatMap fun k ↦ t.filter fun r ↦ key r = k).Perm t := by
  induction ks generalizing t with
  | nil =>
    rw [List.eq_nil_iff_forall_not_mem.mpr fun r hr ↦ List.not_mem_nil (h r hr)]
    exact .nil
  | cons k ks ih =>
    obtain ⟨hk, hks⟩ := List.nodup_cons.mp hks
    have hrest : (ks.flatMap fun k' ↦ t.filter fun r ↦ key r = k') =
        ks.flatMap fun k' ↦ (t.filter fun r ↦ !decide (key r = k)).filter fun r ↦ key r = k' := by
      refine List.flatMap_congr fun k' hk' ↦ ?_
      rw [List.filter_filter]
      refine List.filter_congr fun r _ ↦ ?_
      by_cases hr : key r = k'
      · have hne : k' ≠ k := fun heq ↦ hk (heq ▸ hk')
        simp [hr, hne]
      · simp [hr]
    rw [List.flatMap_cons, hrest]
    refine (List.Perm.append_left _ (ih hks fun r hr ↦ ?_)).trans (List.filter_append_perm _ t)
    obtain ⟨hr, hne⟩ := List.mem_filter.mp hr
    exact (List.mem_cons.mp (h r hr)).resolve_left (by simpa using hne)

section Order

variable [LinearOrder κ] {key : ρ → κ} {t : List ρ} {r x : ρ} {n : ℕ}

/-- The rows in the order of `key`; rows with the same key keep their order. -/
def orderBy (key : ρ → κ) (t : List ρ) : List ρ :=
  t.insertionSort fun a b ↦ key a ≤ key b

@[simp] theorem mem_orderBy : r ∈ orderBy key t ↔ r ∈ t :=
  List.mem_insertionSort _

theorem perm_orderBy : (orderBy key t).Perm t :=
  List.perm_insertionSort _ _

theorem pairwise_orderBy : (orderBy key t).Pairwise fun a b ↦ key a ≤ key b := by
  have : Std.Total fun a b : ρ ↦ key a ≤ key b := ⟨fun a b ↦ le_total _ _⟩
  have : IsTrans ρ fun a b ↦ key a ≤ key b := ⟨fun a b c ↦ le_trans⟩
  exact List.pairwise_insertionSort _ t

/-- Rows that stand in order stay where they are. -/
theorem orderBy_eq_self (h : t.Pairwise fun a b ↦ key a ≤ key b) : orderBy key t = t :=
  List.Pairwise.insertionSort_eq h

/-- The first row comes at or before every row. -/
theorem exists_head?_orderBy (hx : x ∈ t) :
    ∃ first, (orderBy key t).head? = some first ∧ key first ≤ key x := by
  have hsorted : (orderBy key t).Pairwise fun a b ↦ key a ≤ key b := pairwise_orderBy
  have hmem : x ∈ orderBy key t := mem_orderBy.mpr hx
  cases horder : orderBy key t with
  | nil =>
    rw [horder] at hmem
    cases hmem
  | cons first rest =>
    rw [horder] at hmem hsorted
    refine ⟨first, rfl, ?_⟩
    rcases List.mem_cons.mp hmem with rfl | hmem
    · exact le_rfl
    · exact List.rel_of_pairwise_cons hsorted hmem

/-- A row left out of the first `n` rows comes at or after each of them. -/
theorem le_of_mem_take_orderBy (hr : r ∈ (orderBy key t).take n) (hx : x ∈ t)
    (hout : x ∉ (orderBy key t).take n) : key r ≤ key x := by
  have hx' : x ∈ (orderBy key t).drop n := by
    have hmem : x ∈ (orderBy key t).take n ++ (orderBy key t).drop n := by
      rw [List.take_append_drop]
      exact mem_orderBy.mpr hx
    exact (List.mem_append.mp hmem).resolve_left hout
  have hsorted : (orderBy key t).Pairwise fun a b ↦ key a ≤ key b := pairwise_orderBy
  rw [← List.take_append_drop n (orderBy key t), List.pairwise_append] at hsorted
  exact hsorted.2.2 r hr x hx'

/-- Fewer than `n` rows among the first `n` are all the rows. -/
theorem mem_take_orderBy_of_short (hx : x ∈ t) (hn : ((orderBy key t).take n).length < n) :
    x ∈ (orderBy key t).take n := by
  rw [List.take_of_length_le]
  · exact mem_orderBy.mpr hx
  · rw [List.length_take] at hn
    omega

/-- In rows with distinct keys in order, a row is among the first `n` just when fewer than `n` come
before it. -/
theorem mem_take_iff_of_pairwise (h : t.Pairwise fun a b ↦ key a < key b) (hx : x ∈ t) :
    x ∈ t.take n ↔ (t.filter fun r ↦ key r < key x).length < n := by
  induction t generalizing n with
  | nil => cases hx
  | cons a t ih =>
    rw [List.pairwise_cons] at h
    cases n with
    | zero => simp
    | succ n =>
      rw [List.take_succ_cons, List.mem_cons]
      obtain rfl | hxt := List.mem_cons.mp hx
      · have hnone : (x :: t).filter (fun r ↦ key r < key x) = [] := by
          rw [List.filter_eq_nil_iff]
          intro r hr
          obtain rfl | hr := List.mem_cons.mp hr
          · simp
          · simpa using (h.1 r hr).le
        rw [hnone]
        simp
      · have hlt : key a < key x := h.1 x hxt
        have hne : x ≠ a := by
          rintro rfl
          exact lt_irrefl _ hlt
        rw [List.filter_cons_of_pos (by simpa using hlt), List.length_cons,
          Nat.add_lt_add_iff_right, ← ih h.2 hxt]
        exact or_iff_right hne

theorem mem_take_orderBy_iff (h : (t.map key).Nodup) (hx : x ∈ t) :
    x ∈ (orderBy key t).take n ↔ (t.filter fun r ↦ key r < key x).length < n := by
  have hstrict : (orderBy key t).Pairwise fun a b ↦ key a < key b := by
    have hne : (orderBy key t).Pairwise fun a b ↦ key a ≠ key b := by
      have hnodup : ((orderBy key t).map key).Nodup := (perm_orderBy.map key).nodup_iff.mpr h
      exact List.pairwise_map.mp hnodup
    exact (pairwise_orderBy.and hne).imp fun hab ↦ lt_of_le_of_ne hab.1 hab.2
  rw [mem_take_iff_of_pairwise hstrict (mem_orderBy.mpr hx),
    (perm_orderBy.filter fun r ↦ decide (key r < key x)).length_eq]

end Order

end Table
