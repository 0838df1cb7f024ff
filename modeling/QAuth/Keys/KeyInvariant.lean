import Mathlib.Logic.Relation
import QAuth.Keys.KeyRules

/-!
# What holds of the key store in every run

Whatever the transactions do and in whatever order, a slot has at most one active key, a key only moves
from `next` to `active` to `retired`, and a key that leaves `next` was shown for the prepublish window.
-/

namespace QAuth.Keys

open Locks ReadCommitted Transition
open Effect (Event)
open Program hiding ask

variable {options : KeyFactoryOptions} {s t : KeyStore} {w w' : Work} {i j : ℕ} {tx : KeyTx}
  {free : List KeyLock → Bool} {d : Drawn} {c : StoreCall} {p : Performed c} {row r r' : RealmKey}
  {rows : List RealmKey} {status : StoredKeyStatus} {slot : KeySlot} {k : String × String}
  {v : Option RealmKey} {locks : List KeyLock}

/-! ### What a statement can do -/

/-- A statement that tells the transaction nothing its rules ask for. -/
def Quiet : (c : StoreCall) → c.Answer → Prop
  | .now, _ | .generateKeyMaterial _, _ | .listByRealm _ _, _ | .create _, .ok _ => False
  | _, _ => True

/-- What each statement can do. -/
inductive Does (s : KeyStore) (w : Work) (free : List KeyLock → Bool) :
    (c : StoreCall) → Performed c → Prop
  | clock : Does s w free .now ⟨s.now, w, []⟩
  | generate (algorithm : KeyAlgorithm) (generated : GeneratedKeyMaterial)
      (fresh : generated.kid ∉ s.drawn) :
      Does s w free (.generateKeyMaterial algorithm) ⟨generated, w, [generated.kid]⟩
  | list (realmId : String) (filter : StoredKeyFilter) :
      Does s w free (.listByRealm realmId filter)
        ⟨listByRealm (w.view s.rows) realmId filter, w, []⟩
  | store (row : RealmKey) (granted : free (locksOf row) = true)
      (new : ∀ r ∈ w.view s.rows, r.key ≠ row.key)
      (one : row.status = .active → hasActive (w.view s.rows) row.slot = false) :
      Does s w free (.create row) ⟨.ok (), w.write row.key (some row) (locksOf row), []⟩
  | move (realmId kid : String) (change : StoredKeyStatusChange) (row : RealmKey)
      (mem : row ∈ w.view s.rows) (key : row.key = (realmId, kid))
      (starts : row.status = change.startsAt)
      (granted : free [.row row.key, .active row.slot] = true)
      (allowed : violated (w.view s.rows) row change = none) :
      Does s w free (.updateStatus realmId kid change)
        ⟨.ok (some (change.apply row)),
          w.write row.key (some (change.apply row)) [.row row.key, .active row.slot], []⟩
  | delete (realmId : String) (purpose : KeyPurpose) (scopeId kid : String) (row : RealmKey)
      (mem : row ∈ w.view s.rows) (granted : free (locksOf row) = true) :
      Does s w free (.deleteRow realmId purpose scopeId kid)
        ⟨true, w.write row.key none (locksOf row), []⟩
  | lock (realmId : String) (granted : free [.realm realmId] = true) :
      Does s w free (.lockRealm realmId) ⟨(), { w with locks := .realm realmId :: w.locks }, []⟩
  | uuid (id : String) : Does s w free .randomUUID ⟨id, w, [id]⟩
  | nothing (c : StoreCall) (a : c.Answer) (quiet : Quiet c a) : Does s w free c ⟨a, w, []⟩

theorem perform_cases (h : perform s w free d c = some p) : Does s w free c p := by
  cases c with
  | now =>
    cases h
    exact .clock
  | randomUUID =>
    obtain ⟨-, h⟩ := Option.ite_none_left_eq_some.mp h
    cases h
    exact .uuid _
  | generateKeyMaterial algorithm =>
    obtain ⟨hfresh, h⟩ := Option.ite_none_left_eq_some.mp h
    cases h
    exact .generate algorithm _ hfresh
  | sealKeyMaterial =>
    cases h
    exact .nothing _ _ trivial
  | findByKid realmId kid =>
    cases h
    exact .nothing _ _ trivial
  | listByRealm realmId filter =>
    cases h
    exact .list realmId filter
  | create row =>
    obtain ⟨hfree, h⟩ := Option.ite_none_left_eq_some.mp h
    split_ifs at h with hkid hone
    · cases h
      exact .nothing _ _ trivial
    · cases h
      exact .nothing _ _ trivial
    · cases h
      refine .store row (by simpa using hfree) (fun r hr hkey ↦ ?_) fun hactive ↦ ?_
      · exact hkid (List.any_eq_true.mpr ⟨r, hr, decide_eq_true hkey⟩)
      · exact Bool.eq_false_iff.mpr fun hhas ↦ hone ⟨hactive, hhas⟩
  | updateStatus realmId kid change =>
    rw [perform] at h
    split at h
    · cases h
      exact .nothing _ _ trivial
    · rename_i row hfind
      have hmem := List.mem_of_find?_eq_some hfind
      have hkey : row.key = (realmId, kid) := by simpa using List.find?_some hfind
      by_cases hstatus : row.status ≠ change.startsAt
      · rw [if_pos hstatus] at h
        cases h
        exact .nothing _ _ trivial
      · rw [if_neg hstatus] at h
        obtain ⟨hfree, h⟩ := Option.ite_none_left_eq_some.mp h
        split at h
        · cases h
          exact .nothing _ _ trivial
        · rename_i hallowed
          cases h
          exact .move realmId kid change row hmem hkey (Decidable.not_not.mp hstatus)
            (by simpa using hfree) hallowed
  | deleteRow realmId purpose scopeId kid =>
    rw [perform] at h
    split at h
    · cases h
      exact .nothing _ _ trivial
    · rename_i row hfind
      split_ifs at h with hscope hfree
      · cases h
        exact .nothing _ _ trivial
      · cases h
        exact .delete realmId purpose scopeId kid row (List.mem_of_find?_eq_some hfind)
          (by simpa using hfree)
  | lockRealm realmId =>
    obtain ⟨hfree, h⟩ := Option.ite_none_left_eq_some.mp h
    cases h
    exact .lock realmId (by simpa using hfree)
  | listPublicKeys realmId =>
    cases h
    exact .nothing _ _ trivial
  | getWrappedKey realmId kid =>
    cases h
    exact .nothing _ _ trivial
  | anotherRealmPublishes realmId identity =>
    cases h
    exact .nothing _ _ trivial

/-! ### What happens -/

/-- What each thing that happens can do. -/
inductive KeyStep (options : KeyFactoryOptions) (s : KeyStore) : KeyAction → KeyStore → Prop
  | tick : KeyStep options s .tick { s with now := s.now + 1 }
  | begin : KeyStep options s .begin { s with txs := s.txs ++ [some ⟨.empty, .empty, none⟩] }
  | call (i : ℕ) (call : KeyCall) (tx : KeyTx) (get : s.openTx i = some tx) :
      KeyStep options s (.call i call)
        (s.setTx i (some { tx with saved := tx.work, running := some (call.prog options) }))
  | proceed (i : ℕ) (d : Drawn) (tx : KeyTx) (get : s.openTx i = some tx) (c : StoreCall)
      (next : c.Answer → KeyProg KeyReturn) (running : tx.running = some (.call c next))
      (p : Performed c) (does : Does s tx.work (s.freeLocks i) c p) :
      KeyStep options s (.proceed i d)
        { s.setTx i (some { tx with
            work := p.work.record c p.answer
            running := some (next p.answer) }) with
          drawn := p.drawn ++ s.drawn }
  | returned (i : ℕ) (tx : KeyTx) (get : s.openTx i = some tx) :
      KeyStep options s (.finish i) (s.setTx i (some { tx with running := none }))
  | threw (i : ℕ) (tx : KeyTx) (get : s.openTx i = some tx) :
      KeyStep options s (.finish i)
        (s.setTx i (some { tx with work := tx.saved, running := none }))
  | commit (i : ℕ) (tx : KeyTx) (get : s.openTx i = some tx) :
      KeyStep options s (.commit i) { s.setTx i none with rows := tx.work.view s.rows }
  | rollback (i : ℕ) (tx : KeyTx) (get : s.openTx i = some tx) :
      KeyStep options s (.rollback i) (s.setTx i none)

theorem keyStep_cases {a : KeyAction} (h : s.step options a = some t) : KeyStep options s a t := by
  cases a with
  | tick =>
    cases h
    exact .tick
  | begin =>
    cases h
    exact .begin
  | call i call =>
    obtain ⟨tx, hget, h⟩ := Option.bind_eq_some_iff.mp h
    obtain ⟨-, h⟩ := Option.ite_none_left_eq_some.mp h
    cases h
    exact .call i call tx hget
  | proceed i d =>
    obtain ⟨tx, hget, h⟩ := Option.bind_eq_some_iff.mp h
    rw [KeyStore.proceed] at h
    split at h
    · rename_i c next hrunning
      obtain ⟨p, hp, h⟩ := Option.map_eq_some_iff.mp h
      cases h
      exact .proceed i d tx hget c next hrunning p (perform_cases hp)
    · cases h
  | finish i =>
    obtain ⟨tx, hget, h⟩ := Option.bind_eq_some_iff.mp h
    rw [KeyStore.finish] at h
    split at h
    · cases h
      exact .returned i tx hget
    · cases h
      exact .threw i tx hget
    · cases h
  | commit i =>
    obtain ⟨tx, hget, h⟩ := Option.bind_eq_some_iff.mp h
    obtain ⟨-, h⟩ := Option.ite_none_left_eq_some.mp h
    cases h
    exact .commit i tx hget
  | rollback i =>
    obtain ⟨tx, hget, h⟩ := Option.map_eq_some_iff.mp h
    cases h
    exact .rollback i tx hget

/-! ### Open transactions -/

theorem openTx_setTx_self (h : s.openTx i = some tx) (v : Option KeyTx) :
    (s.setTx i v).openTx i = v := by
  have hlt : i < s.txs.length := by
    by_contra hge
    rw [KeyStore.openTx, List.getElem?_eq_none (not_lt.mp hge)] at h
    cases h
  rw [KeyStore.openTx, KeyStore.setTx, List.getElem?_set_self hlt]
  rfl

theorem openTx_setTx_ne (h : j ≠ i) (v : Option KeyTx) : (s.setTx i v).openTx j = s.openTx j := by
  rw [KeyStore.openTx, KeyStore.setTx, List.getElem?_set_ne h.symm]
  rfl

/-- An open transaction after one was changed: that one, or another one as it was. -/
theorem openTx_setTx_cases {v : Option KeyTx} {tx' : KeyTx} (hget : s.openTx i = some tx)
    (h : (s.setTx i v).openTx j = some tx') :
    (j = i ∧ v = some tx') ∨ (j ≠ i ∧ s.openTx j = some tx') := by
  by_cases hj : j = i
  · subst hj
    rw [openTx_setTx_self hget] at h
    exact .inl ⟨rfl, h⟩
  · rw [openTx_setTx_ne hj] at h
    exact .inr ⟨hj, h⟩

/-- An open transaction after one has begun: an earlier one, or the new one. -/
theorem openTx_begin_cases {tx' : KeyTx}
    (h : KeyStore.openTx { s with txs := s.txs ++ [some tx] } j = some tx') :
    s.openTx j = some tx' ∨ tx' = tx := by
  rcases getElem?_append_cases (Option.join_eq_some_iff.mp h) with hget | ⟨-, heq⟩
  · exact .inl (Option.join_eq_some_iff.mpr hget)
  · cases heq
    exact .inr rfl

/-- Some transaction did this work, or would go back to it. -/
def KeyStore.HasWork (s : KeyStore) (i : ℕ) (w : Work) : Prop :=
  ∃ tx, s.openTx i = some tx ∧ (w = tx.work ∨ w = tx.saved)

/-- The works after a step: those before it, an empty one, or the one a statement leaves. -/
theorem hasWork_cases {a : KeyAction} (hstep : KeyStep options s a t) (h : t.HasWork j w) :
    s.HasWork j w ∨ w = .empty ∨ ∃ d tx c next p, a = .proceed j d ∧ s.openTx j = some tx ∧
      tx.running = some (.call c next) ∧ Does s tx.work (s.freeLocks j) c p ∧
        w = p.work.record c p.answer ∧ t.drawn = p.drawn ++ s.drawn := by
  obtain ⟨tx', hget', hw⟩ := h
  cases hstep with
  | tick => exact .inl ⟨tx', hget', hw⟩
  | begin =>
    rcases openTx_begin_cases hget' with hold | rfl
    · exact .inl ⟨tx', hold, hw⟩
    · exact .inr (.inl (by rcases hw with rfl | rfl <;> rfl))
  | call i call tx hget =>
    rcases openTx_setTx_cases hget hget' with ⟨rfl, htx⟩ | ⟨-, hold⟩
    · cases htx
      exact .inl ⟨tx, hget, .inl (by rcases hw with rfl | rfl <;> rfl)⟩
    · exact .inl ⟨tx', hold, hw⟩
  | proceed i d tx hget c next hrunning p hdoes =>
    rcases openTx_setTx_cases hget hget' with ⟨rfl, htx⟩ | ⟨-, hold⟩
    · cases htx
      rcases hw with rfl | rfl
      · exact .inr (.inr ⟨d, tx, c, next, p, rfl, hget, hrunning, hdoes, rfl, rfl⟩)
      · exact .inl ⟨tx, hget, .inr rfl⟩
    · exact .inl ⟨tx', hold, hw⟩
  | returned i tx hget =>
    rcases openTx_setTx_cases hget hget' with ⟨rfl, htx⟩ | ⟨-, hold⟩
    · cases htx
      exact .inl ⟨tx, hget, hw⟩
    · exact .inl ⟨tx', hold, hw⟩
  | threw i tx hget =>
    rcases openTx_setTx_cases hget hget' with ⟨rfl, htx⟩ | ⟨-, hold⟩
    · cases htx
      exact .inl ⟨tx, hget, .inr (by rcases hw with rfl | rfl <;> rfl)⟩
    · exact .inl ⟨tx', hold, hw⟩
  | commit i tx hget | rollback i tx hget =>
    rcases openTx_setTx_cases hget hget' with ⟨rfl, htx⟩ | ⟨-, hold⟩
    · cases htx
    · exact .inl ⟨tx', hold, hw⟩

/-! ### One key of a status in a slot -/

def OneOf (status : StoredKeyStatus) (rows : List RealmKey) : Prop :=
  ∀ r ∈ rows, ∀ r' ∈ rows, r.status = status → r'.status = status → r.slot = r'.slot →
    r.key = r'.key

/-- What two transactions see stays so once one has committed, where they write keys of the status in
different slots. -/
theorem OneOf.commit (hw : OneOf status (w.view rows)) (hw' : OneOf status (w'.view rows))
    (hapart : ∀ k r k' r', (k, some r) ∈ w.writes → (k', some r') ∈ w'.writes →
      r.status = status → r'.status = status → r.slot ≠ r'.slot) :
    OneOf status (w.view (w'.view rows)) := by
  -- a row that the first did not write, and that the second left as it was, was seen by both
  have hseen : ∀ r ∈ w'.view rows, r.key ∉ w.writes.keys →
      r ∈ w.view rows ∨ ∃ k, (k, some r) ∈ w'.writes := by
    intro r hr hkey
    rcases mem_commit.mp hr with ⟨hrows, -⟩ | hwritten
    · exact .inl (mem_commit.mpr (.inl ⟨hrows, hkey⟩))
    · exact .inr hwritten
  have hmixed : ∀ r ∈ w'.view rows, r.key ∉ w.writes.keys → ∀ k r', (k, some r') ∈ w.writes →
      r.status = status → r'.status = status → r.slot = r'.slot → r.key = r'.key := by
    intro r hr hkey k r' hr' hstatus hstatus' hslot
    rcases hseen r hr hkey with hview | ⟨k', hwritten⟩
    · exact hw r hview r' (mem_commit.mpr (.inr ⟨k, hr'⟩)) hstatus hstatus' hslot
    · exact absurd hslot.symm (hapart k r' k' r hr' hwritten hstatus' hstatus)
  intro r hr r' hr' hstatus hstatus' hslot
  rcases mem_commit.mp hr with ⟨hview, hkey⟩ | ⟨k, hwritten⟩ <;>
    rcases mem_commit.mp hr' with ⟨hview', hkey'⟩ | ⟨k', hwritten'⟩
  · exact hw' r hview r' hview' hstatus hstatus' hslot
  · exact hmixed r hview hkey k' r' hwritten' hstatus hstatus' hslot
  · exact (hmixed r' hview' hkey' k r hwritten hstatus' hstatus hslot.symm).symm
  · exact hw r (mem_commit.mpr (.inr ⟨k, hwritten⟩)) r' (mem_commit.mpr (.inr ⟨k', hwritten'⟩))
      hstatus hstatus' hslot

/-- A row that is written in place of the only one its slot may have. -/
theorem OneOf.write (h : OneOf status (w.view rows)) (hnamed : w.writes.Named RealmKey.key)
    (hv : ∀ r ∈ v, r.key = k)
    (hone : ∀ r ∈ v, r.status = status → ∀ r' ∈ w.view rows, r'.status = status →
      r'.slot = r.slot → r'.key = k) :
    OneOf status ((w.write k v locks).view rows) := by
  have hmem : ∀ r, r ∈ (w.write k v locks).view rows ↔ (r ∈ w.view rows ∧ r.key ≠ k) ∨ v = some r :=
    fun r ↦ mem_commit_put hnamed
  intro r hr r' hr' hstatus hstatus' hslot
  rcases (hmem r).mp hr with ⟨hview, hkey⟩ | rfl <;>
    rcases (hmem r').mp hr' with ⟨hview', hkey'⟩ | heq
  · exact h r hview r' hview' hstatus hstatus' hslot
  · subst heq
    exact absurd (hone r' rfl hstatus' r hview hstatus hslot) hkey
  · exact absurd (hone r rfl hstatus r' hview' hstatus' hslot.symm) hkey'
  · cases heq
    rfl

/-! ### What a row may become -/

/-- One move of a key's status. -/
inductive StatusMove : StoredKeyStatus → StoredKeyStatus → Prop
  | activated : StatusMove .next .active
  | retired : StatusMove .active .retired

/-- What a row may have become: the same key, further on; once it has left `next`, it was shown for
the prepublish window. -/
structure Later (options : KeyFactoryOptions) (row row' : RealmKey) : Prop where
  key : row'.key = row.key
  slot : row'.slot = row.slot
  shown : row'.shownAt = row.shownAt
  moved : Relation.ReflTransGen StatusMove row.status row'.status
  activated : row.status = .next → row'.status ≠ .next →
    ∃ n ∈ row'.activateAt, row.shownAt + options.prepublishMs ≤ n
  kept : row.status ≠ .next → row'.status ≠ .next ∧ row'.activateAt = row.activateAt

theorem Later.refl (options : KeyFactoryOptions) (row : RealmKey) : Later options row row :=
  ⟨rfl, rfl, rfl, .refl, fun h h' ↦ absurd h h', fun h ↦ ⟨h, rfl⟩⟩

theorem Later.trans (h : Later options row r) (h' : Later options r r') :
    Later options row r' where
  key := h'.key.trans h.key
  slot := h'.slot.trans h.slot
  shown := h'.shown.trans h.shown
  moved := h.moved.trans h'.moved
  activated hnext hleft := by
    by_cases hmid : r.status = .next
    · obtain ⟨n, hn, hle⟩ := h'.activated hmid hleft
      exact ⟨n, hn, by rw [← h.shown]; exact hle⟩
    · obtain ⟨n, hn, hle⟩ := h.activated hnext hmid
      exact ⟨n, by rw [(h'.kept hmid).2]; exact hn, hle⟩
  kept hleft := by
    obtain ⟨hmid, hat⟩ := h.kept hleft
    exact ⟨(h'.kept hmid).1, (h'.kept hmid).2.trans hat⟩

/-- A rotation step moves a key on, where one that activates it has waited for the window. -/
theorem later_apply {change : StoredKeyStatusChange} (hstarts : row.status = change.startsAt)
    (hshown : ∀ n, change = .active n → row.shownAt + options.prepublishMs ≤ n) :
    Later options row (change.apply row) := by
  cases change with
  | active n =>
    refine ⟨rfl, rfl, rfl, ?_, fun _ _ ↦ ⟨n, rfl, hshown n rfl⟩, fun h ↦ absurd hstarts h⟩
    rw [hstarts]
    exact .single .activated
  | retired n u =>
    have hactive : row.status = .active := hstarts
    refine ⟨rfl, rfl, rfl, ?_, fun h ↦ ?_, fun _ ↦ ⟨(fun h ↦ by cases h), rfl⟩⟩
    · rw [hactive]
      exact .single .retired
    · rw [hactive] at h
      cases h

/-- What holds of every row. -/
structure RowOk (s : KeyStore) (row : RealmKey) : Prop where
  published : ∀ n ∈ row.publishAt, n ≤ s.now
  activated : ∀ n ∈ row.activateAt, n ≤ s.now
  wellFormed : WellFormed row
  drawn : row.kid ∈ s.drawn

theorem RowOk.apply {change : StoredKeyStatusChange} (h : RowOk s row)
    (hnow : ∀ n, change = .active n → n ≤ s.now) : RowOk s (change.apply row) := by
  have hwell : WellFormed row := h.wellFormed
  cases change with
  | active n =>
    refine ⟨h.published, fun m hm ↦ ?_, ⟨hwell.realm, hwell.lower, hwell.scope, hwell.algorithm⟩,
      h.drawn⟩
    obtain rfl : n = m := Option.some.inj hm
    exact hnow n rfl
  | retired n u =>
    exact ⟨h.published, h.activated, ⟨hwell.realm, hwell.lower, hwell.scope, hwell.algorithm⟩,
      h.drawn⟩

/-! ### The invariant -/

/-- What a transaction wrote. -/
structure WritesOk (options : KeyFactoryOptions) (s : KeyStore) (w : Work) : Prop where
  named : w.writes.Named RealmKey.key
  locked : ∀ k ∈ w.writes.keys, .row k ∈ w.locks
  active : ∀ k r, (k, some r) ∈ w.writes → r.status = .active → .active r.slot ∈ w.locks
  one : OneOf .active (w.view s.rows)
  rows : ∀ k r, (k, some r) ∈ w.writes → RowOk s r
  later : ∀ k r, (k, some r) ∈ w.writes → (∃ r₀ ∈ s.rows, Later options r₀ r) ∨
    ((∀ r₀ ∈ s.rows, r₀.key ≠ k) ∧ r.kid ∈ drew w.trace)

/-- What a transaction was told. -/
structure ToldOk (s : KeyStore) (w : Work) : Prop where
  clock : ∀ n ∈ clockReads w.trace, n ≤ s.now
  draws : ∀ kid ∈ drew w.trace, kid ∈ s.drawn ∧ ∀ r ∈ s.rows, r.kid ≠ kid
  shown : ∀ e ∈ listed w.trace, e.2.realmId = e.1 ∧ e.2.kid ∈ s.drawn ∧
    ∀ r ∈ w.view s.rows, r.key = e.2.key → r.shownAt = e.2.shownAt

structure WorkOk (options : KeyFactoryOptions) (s : KeyStore) (w : Work) : Prop where
  writes : WritesOk options s w
  told : ToldOk s w

/-- What one transaction did does not touch what another one did. -/
structure Separate (w w' : Work) : Prop where
  locks : ∀ l ∈ w.locks, l ∉ w'.locks
  draws : ∀ kid ∈ drew w.trace, kid ∉ drew w'.trace
  lists : ∀ e ∈ listed w.trace, e.2.kid ∉ drew w'.trace

structure StoreOk (options : KeyFactoryOptions) (s : KeyStore) : Prop where
  nodup : (s.rows.map RealmKey.key).Nodup
  one : OneOf .active s.rows
  rows : ∀ r ∈ s.rows, RowOk s r
  work : ∀ i w, s.HasWork i w → WorkOk options s w
  apart : ∀ i j w w', i ≠ j → s.HasWork i w → s.HasWork j w' → Separate w w'
  saved : ∀ i tx, s.openTx i = some tx → ∀ l ∈ tx.saved.locks, l ∈ tx.work.locks
  obeys : ∀ i tx p, s.openTx i = some tx → tx.running = some p →
    Obeys (KeyRule options) tx.work.trace p

theorem WritesOk.nodup_view (h : WritesOk options s w)
    (hnodup : (s.rows.map RealmKey.key).Nodup) : ((w.view s.rows).map RealmKey.key).Nodup :=
  nodup_commit hnodup h.named

/-- Where a row that a transaction sees comes from. -/
theorem WritesOk.origin (h : WritesOk options s w) (hrows : ∀ r ∈ s.rows, RowOk s r)
    (hr : r ∈ w.view s.rows) : RowOk s r ∧ ((∃ r₀ ∈ s.rows, Later options r₀ r) ∨
      ((∀ r₀ ∈ s.rows, r₀.key ≠ r.key) ∧ r.kid ∈ drew w.trace)) := by
  rcases mem_commit.mp hr with ⟨hmem, -⟩ | ⟨k, hmem⟩
  · exact ⟨hrows r hmem, .inl ⟨r, hmem, .refl options r⟩⟩
  · rw [h.named.named k r hmem]
    exact ⟨h.rows k r hmem, h.later k r hmem⟩

/-- The invariant of the writes, once a row was written. -/
theorem WritesOk.write (h : WritesOk options s w) (hv : ∀ r ∈ v, r.key = k)
    (hlock : .row k ∈ locks)
    (hactive : ∀ r ∈ v, r.status = .active → .active r.slot ∈ locks)
    (hone : ∀ r ∈ v, r.status = .active → ∀ r' ∈ w.view s.rows, r'.status = .active →
      r'.slot = r.slot → r'.key = k)
    (hok : ∀ r ∈ v, RowOk s r)
    (hlater : ∀ r ∈ v, (∃ r₀ ∈ s.rows, Later options r₀ r) ∨
      ((∀ r₀ ∈ s.rows, r₀.key ≠ k) ∧ r.kid ∈ drew w.trace)) :
    WritesOk options s (w.write k v locks) where
  named := h.named.put hv
  locked k' hk' := by
    rcases Writes.mem_keys_put.mp hk' with rfl | hk'
    · exact List.mem_append_left _ hlock
    · exact List.mem_append_right _ (h.locked k' hk')
  active k' r hmem hstatus := by
    rcases Writes.mem_put.mp hmem with heq | ⟨hmem, -⟩
    · cases heq
      exact List.mem_append_left _ (hactive r rfl hstatus)
    · exact List.mem_append_right _ (h.active k' r hmem hstatus)
  one := h.one.write h.named hv hone
  rows k' r hmem := by
    rcases Writes.mem_put.mp hmem with heq | ⟨hmem, -⟩
    · cases heq
      exact hok r rfl
    · exact h.rows k' r hmem
  later k' r hmem := by
    rcases Writes.mem_put.mp hmem with heq | ⟨hmem, -⟩
    · cases heq
      exact hlater r rfl
    · exact h.later k' r hmem

theorem hasActive_eq_false (h : hasActive rows slot = false) :
    ∀ r ∈ rows, r.status = .active → r.slot ≠ slot := by
  intro r hr hstatus hslot
  have hall := List.any_eq_false.mp h r hr
  simp [hslot, hstatus] at hall

/-- What a row that a rotation step changes is in the one-active index. -/
theorem violated_eq_none {change : StoredKeyStatusChange} (h : violated rows row change = none)
    (hactive : (change.apply row).status = .active) :
    ∀ r ∈ rows, r.status = .active → r.slot ≠ row.slot := by
  cases change with
  | active n =>
    rw [violated] at h
    refine hasActive_eq_false ?_
    by_contra hhas
    rw [if_pos (by simpa using hhas)] at h
    cases h
  | retired n u => cases hactive

/-- A statement keeps the invariant of the writes. -/
theorem WritesOk.does (h : WritesOk options s w) (htold : ToldOk s w)
    (hrows : ∀ r ∈ s.rows, RowOk s r) (hrule : KeyRule options w.trace c)
    (hdoes : Does s w free c p) : WritesOk options s p.work := by
  cases hdoes with
  | clock | generate algorithm generated fresh | list realmId filter | uuid id
    | nothing _ a quiet => exact h
  | lock realmId granted =>
    exact { h with
      locked := fun k hk ↦ List.mem_cons_of_mem _ (h.locked k hk)
      active := fun k r hmem hr ↦ List.mem_cons_of_mem _ (h.active k r hmem hr) }
  | store row granted new one =>
    have hnew : NewRow w.trace row := hrule
    refine h.write ?_ List.mem_cons_self ?_ ?_ ?_ ?_
    · rintro r ⟨⟩
      rfl
    · rintro r ⟨⟩ hstatus
      rw [locksOf, if_pos hstatus]
      exact List.mem_cons_of_mem _ List.mem_cons_self
    · rintro r ⟨⟩ hstatus r' hr' hstatus' hslot
      exact absurd hslot (hasActive_eq_false (one hstatus) r' hr' hstatus')
    · rintro r ⟨⟩
      refine ⟨fun n hn ↦ ?_, fun n hn ↦ ?_, hnew.wellFormed, (htold.draws _ hnew.drew).1⟩
      · rw [hnew.published n hn]
        exact htold.clock _ hnew.created
      · rw [hnew.activated n hn]
        exact htold.clock _ hnew.created
    · rintro r ⟨⟩
      refine .inr ⟨fun r₀ hr₀ hkey ↦ ?_, hnew.drew⟩
      exact (htold.draws _ hnew.drew).2 r₀ hr₀ (congrArg Prod.snd hkey)
  | move realmId kid change row mem key starts granted allowed =>
    have hkey : (change.apply row).key = row.key := by cases change <;> rfl
    have hslot : (change.apply row).slot = row.slot := by cases change <;> rfl
    obtain ⟨hok, horigin⟩ := h.origin hrows mem
    have hlater : Later options row (change.apply row) := by
      refine later_apply starts fun n hn ↦ ?_
      subst hn
      obtain ⟨-, r, hlisted, hkid, hnext, hle⟩ : ShownForWindow options w.trace realmId kid n := hrule
      obtain ⟨hrealm, -, hshown⟩ := htold.shown _ hlisted
      have hsame : row.key = r.key := by
        rw [key]
        exact Prod.ext hrealm.symm hkid.symm
      rw [hshown row mem hsame]
      exact hle
    refine h.write ?_ List.mem_cons_self ?_ ?_ ?_ ?_
    · rintro r ⟨⟩
      exact hkey
    · rintro r ⟨⟩ -
      rw [hslot]
      exact List.mem_cons_of_mem _ List.mem_cons_self
    · rintro r ⟨⟩ hstatus r' hr' hstatus' hslot'
      exact absurd (hslot'.trans hslot) (violated_eq_none allowed hstatus r' hr' hstatus')
    · rintro r ⟨⟩
      refine hok.apply fun n hn ↦ ?_
      subst hn
      obtain ⟨hclock, -⟩ : ShownForWindow options w.trace realmId kid n := hrule
      exact htold.clock n hclock
    · rintro r ⟨⟩
      rcases horigin with ⟨r₀, hr₀, hbefore⟩ | ⟨hnone, hdrew⟩
      · exact .inl ⟨r₀, hr₀, hbefore.trans hlater⟩
      · refine .inr ⟨hnone, ?_⟩
        have hkid : (change.apply row).kid = row.kid := congrArg Prod.snd hkey
        rw [hkid]
        exact hdrew
  | delete realmId purpose scopeId kid row mem granted =>
    refine h.write ?_ List.mem_cons_self ?_ ?_ ?_ ?_ <;> exact fun r hr ↦ by cases hr

/-! ### What a statement tells -/

theorem mem_listByRealm {realmId : String} {filter : StoredKeyFilter} :
    row ∈ listByRealm rows realmId filter ↔
      row ∈ rows ∧ row.realmId = realmId ∧ filter.admits row = true := by
  simp [listByRealm]

/-- A quiet statement tells nothing that the invariant speaks of. -/
theorem Quiet.tells {a : c.Answer} (h : Quiet c a) (known : List (String × RealmKey)) :
    drewOf ⟨c, a⟩ = none ∧ clockOf ⟨c, a⟩ = none ∧
      ∀ e ∈ listedAfter known ⟨c, a⟩, e ∈ known := by
  cases c with
  | now | generateKeyMaterial algorithm | listByRealm realmId filter => cases h
  | create row => exact ⟨rfl, rfl, fun e he ↦ by cases he⟩
  | _ => exact ⟨rfl, rfl, fun e he ↦ he⟩

/-- What a transaction was told, after one more statement. -/
theorem ToldOk.append {ids : List String} {e : Event StorePorts} (h : ToldOk s w)
    (htrace : w'.trace = w.trace ++ [e]) (hclock : ∀ n ∈ clockOf e, n ≤ s.now)
    (hdrew : ∀ kid ∈ drewOf e, kid ∈ ids ∧ ∀ r ∈ s.rows, r.kid ≠ kid)
    (hlisted : ∀ x ∈ listedAfter (listed w.trace) e, x ∈ listed w.trace ∨
      x.2.realmId = x.1 ∧ x.2.kid ∈ s.drawn ∧
        ∀ r ∈ w.view s.rows, r.key = x.2.key → r.shownAt = x.2.shownAt)
    (hview : listedAfter (listed w.trace) e = [] ∨ ∀ r ∈ w'.view s.rows, ∃ r₀ ∈ w.view s.rows,
      r₀.key = r.key ∧ r₀.shownAt = r.shownAt) :
    ToldOk { s with drawn := ids ++ s.drawn } w' where
  clock n hn := by
    rw [htrace, clockReads_append] at hn
    rcases List.mem_append.mp hn with hn | hn
    · exact h.clock n hn
    · exact hclock n (Option.mem_toList.mp hn)
  draws kid hkid := by
    rw [htrace, drew_append] at hkid
    rcases List.mem_append.mp hkid with hkid | hkid
    · exact ⟨List.mem_append_right _ (h.draws kid hkid).1, (h.draws kid hkid).2⟩
    · obtain ⟨hid, hnew⟩ := hdrew kid (Option.mem_toList.mp hkid)
      exact ⟨List.mem_append_left _ hid, hnew⟩
  shown x hx := by
    rw [htrace, listed_append] at hx
    obtain ⟨hrealm, hdrawn, hshown⟩ := (hlisted x hx).elim (h.shown x) id
    refine ⟨hrealm, List.mem_append_right _ hdrawn, fun r hr hkey ↦ ?_⟩
    rcases hview with hnone | hview
    · rw [hnone] at hx
      cases hx
    · obtain ⟨r₀, hr₀, hkey₀, hshown₀⟩ := hview r hr
      rw [← hshown₀]
      exact hshown r₀ hr₀ (hkey₀.trans hkey)

/-- A statement keeps the invariant of what the transaction was told. -/
theorem ToldOk.does (h : ToldOk s w) (hwrites : WritesOk options s w)
    (hnodup : (s.rows.map RealmKey.key).Nodup) (hrows : ∀ r ∈ s.rows, RowOk s r)
    (hdoes : Does s w free c p) :
    ToldOk { s with drawn := p.drawn ++ s.drawn } (p.work.record c p.answer) := by
  have hsame : ∀ r ∈ w.view s.rows, ∃ r₀ ∈ w.view s.rows,
      r₀.key = r.key ∧ r₀.shownAt = r.shownAt := fun r hr ↦ ⟨r, hr, rfl, rfl⟩
  cases hdoes with
  | clock =>
    exact h.append rfl (fun n hn ↦ by cases hn; exact le_rfl) (fun kid hkid ↦ by cases hkid)
      (fun x hx ↦ .inl hx) (.inr hsame)
  | generate algorithm generated fresh =>
    refine h.append rfl (fun n hn ↦ by cases hn) (fun kid hkid ↦ ?_) (fun x hx ↦ .inl hx)
      (.inr hsame)
    cases hkid
    refine ⟨List.mem_singleton_self _, fun r hr heq ↦ fresh ?_⟩
    rw [← heq]
    exact (hrows r hr).drawn
  | list realmId filter =>
    refine h.append rfl (fun n hn ↦ by cases hn) (fun kid hkid ↦ by cases hkid) (fun x hx ↦ ?_)
      (.inr hsame)
    rcases List.mem_append.mp hx with hx | hx
    · exact .inl hx
    · obtain ⟨row, hrow, rfl⟩ := List.mem_map.mp hx
      obtain ⟨hview, hrealm, -⟩ := mem_listByRealm.mp hrow
      refine .inr ⟨hrealm, (hwrites.origin hrows hview).1.drawn, fun r hr hkey ↦ ?_⟩
      rw [Table.eq_of_key_eq (hwrites.nodup_view hnodup) hr hview hkey]
  | uuid id =>
    exact h.append rfl (fun n hn ↦ by cases hn) (fun kid hkid ↦ by cases hkid)
      (fun x hx ↦ .inl hx) (.inr hsame)
  | store row granted new one =>
    exact h.append rfl (fun n hn ↦ by cases hn) (fun kid hkid ↦ by cases hkid)
      (fun x hx ↦ by cases hx) (.inl rfl)
  | move realmId kid change row mem key starts granted allowed =>
    refine h.append rfl (fun n hn ↦ by cases hn) (fun kid hkid ↦ by cases hkid)
      (fun x hx ↦ .inl hx) (.inr fun r hr ↦ ?_)
    rcases (mem_commit_put hwrites.named).mp hr with ⟨hview, -⟩ | heq
    · exact hsame r hview
    · cases heq
      exact ⟨row, mem, by cases change <;> rfl, by cases change <;> rfl⟩
  | delete realmId purpose scopeId kid row mem granted =>
    refine h.append rfl (fun n hn ↦ by cases hn) (fun kid hkid ↦ by cases hkid)
      (fun x hx ↦ .inl hx) (.inr fun r hr ↦ ?_)
    rcases (mem_commit_put hwrites.named).mp hr with ⟨hview, -⟩ | heq
    · exact hsame r hview
    · cases heq
  | lock realmId granted =>
    exact h.append rfl (fun n hn ↦ by cases hn) (fun kid hkid ↦ by cases hkid)
      (fun x hx ↦ .inl hx) (.inr hsame)
  | nothing _ a quiet =>
    obtain ⟨hdrew, hclock, hlisted⟩ := quiet.tells (listed w.trace)
    refine h.append rfl (fun n hn ↦ ?_) (fun kid hkid ↦ ?_) (fun x hx ↦ .inl (hlisted x hx))
      (.inr hsame)
    · rw [hclock] at hn
      cases hn
    · rw [hdrew] at hkid
      cases hkid

/-! ### Two transactions -/

theorem Does.adds (h : Does s w free c p) :
    (∀ l ∈ p.work.locks, l ∈ w.locks ∨ ∃ locks, free locks = true ∧ l ∈ locks) ∧
      p.work.trace = w.trace ∧ (∀ kid ∈ drewOf ⟨c, p.answer⟩, kid ∉ s.drawn) ∧
        ∀ x ∈ listedAfter (listed w.trace) ⟨c, p.answer⟩,
          x ∈ listed w.trace ∨ x.2 ∈ w.view s.rows := by
  have hwrite : ∀ {k : String × String} {v : Option RealmKey} {locks : List KeyLock},
      free locks = true → ∀ l ∈ (w.write k v locks).locks,
        l ∈ w.locks ∨ ∃ locks, free locks = true ∧ l ∈ locks := by
    intro k v locks hfree l hl
    rcases List.mem_append.mp hl with hl | hl
    · exact .inr ⟨locks, hfree, hl⟩
    · exact .inl hl
  cases h with
  | clock | uuid id =>
    exact ⟨fun l hl ↦ .inl hl, rfl, (fun kid hkid ↦ by cases hkid), fun x hx ↦ .inl hx⟩
  | generate algorithm generated fresh =>
    refine ⟨fun l hl ↦ .inl hl, rfl, fun kid hkid ↦ ?_, fun x hx ↦ .inl hx⟩
    cases hkid
    exact fresh
  | list realmId filter =>
    refine ⟨fun l hl ↦ .inl hl, rfl, (fun kid hkid ↦ by cases hkid), fun x hx ↦ ?_⟩
    rcases List.mem_append.mp hx with hx | hx
    · exact .inl hx
    · obtain ⟨row, hrow, rfl⟩ := List.mem_map.mp hx
      exact .inr (mem_listByRealm.mp hrow).1
  | store row granted new one =>
    exact ⟨hwrite granted, rfl, (fun kid hkid ↦ by cases hkid), fun x hx ↦ by cases hx⟩
  | move realmId kid change row mem key starts granted allowed =>
    exact ⟨hwrite granted, rfl, (fun kid hkid ↦ by cases hkid), fun x hx ↦ .inl hx⟩
  | delete realmId purpose scopeId kid row mem granted =>
    exact ⟨hwrite granted, rfl, (fun kid hkid ↦ by cases hkid), fun x hx ↦ .inl hx⟩
  | lock realmId granted =>
    refine ⟨fun l hl ↦ ?_, rfl, (fun kid hkid ↦ by cases hkid), fun x hx ↦ .inl hx⟩
    rcases List.mem_cons.mp hl with rfl | hl
    · exact .inr ⟨_, granted, List.mem_singleton_self _⟩
    · exact .inl hl
  | nothing _ a quiet =>
    obtain ⟨hdrew, -, hlisted⟩ := quiet.tells (listed w.trace)
    refine ⟨fun l hl ↦ .inl hl, rfl, fun kid hkid ↦ ?_, fun x hx ↦ .inl (hlisted x hx)⟩
    rw [hdrew] at hkid
    cases hkid

/-- A statement gives up no lock. -/
theorem Does.keeps_locks (h : Does s w free c p) : ∀ l ∈ w.locks, l ∈ p.work.locks := by
  intro l hl
  cases h with
  | clock | uuid id | generate algorithm generated fresh | list realmId filter
    | nothing _ a quiet => exact hl
  | store row granted new one => exact List.mem_append_right _ hl
  | move realmId kid change row mem key starts granted allowed =>
    exact List.mem_append_right _ hl
  | delete realmId purpose scopeId kid row mem granted => exact List.mem_append_right _ hl
  | lock realmId granted => exact List.mem_cons_of_mem _ hl

/-- No other transaction drew the id of a row that a transaction sees. -/
theorem Separate.kid_of_view (h : Separate w w') (hwrites : WritesOk options s w)
    (htold' : ToldOk s w') (hrows : ∀ r ∈ s.rows, RowOk s r) (hr : r ∈ w.view s.rows) :
    r.kid ∉ drew w'.trace := by
  rcases (hwrites.origin hrows hr).2 with ⟨r₀, hr₀, hlater⟩ | ⟨-, hdrew⟩
  · intro hmem
    exact (htold'.draws _ hmem).2 r₀ hr₀ (congrArg Prod.snd hlater.key).symm
  · exact h.draws _ hdrew

/-- A statement keeps two transactions separate. -/
theorem Separate.does (h : Separate w w') (h' : Separate w' w) (hwrites : WritesOk options s w)
    (htold' : ToldOk s w') (hrows : ∀ r ∈ s.rows, RowOk s r)
    (hfree : ∀ locks, free locks = true → ∀ l ∈ locks, l ∉ w'.locks)
    (hdoes : Does s w free c p) :
    Separate (p.work.record c p.answer) w' ∧ Separate w' (p.work.record c p.answer) := by
  obtain ⟨hlocks, htrace, hdrew, hlisted⟩ := hdoes.adds
  have hlocks' : ∀ l ∈ p.work.locks, l ∉ w'.locks := by
    intro l hl
    rcases hlocks l hl with hl | ⟨locks, hgranted, hl⟩
    · exact h.locks l hl
    · exact hfree locks hgranted l hl
  have hdraws : ∀ kid ∈ drew (p.work.record c p.answer).trace,
      kid ∈ drew w.trace ∨ kid ∉ s.drawn := by
    intro kid hkid
    rw [Work.record, drew_append, htrace] at hkid
    rcases List.mem_append.mp hkid with hkid | hkid
    · exact .inl hkid
    · exact .inr (hdrew kid (Option.mem_toList.mp hkid))
  refine ⟨⟨hlocks', fun kid hkid hkid' ↦ ?_, fun x hx ↦ ?_⟩,
    ⟨fun l hl hl' ↦ hlocks' l hl' hl, fun kid hkid' hkid ↦ ?_, fun x hx hkid ↦ ?_⟩⟩
  · exact (hdraws kid hkid).elim (fun hold ↦ h.draws kid hold hkid')
      fun hnew ↦ hnew (htold'.draws kid hkid').1
  · rw [Work.record, listed_append, htrace] at hx
    rcases hlisted x hx with hx | hx
    · exact h.lists x hx
    · exact h.kid_of_view hwrites htold' hrows hx
  · exact (hdraws kid hkid).elim (fun hold ↦ h.draws kid hold hkid')
      fun hnew ↦ hnew (htold'.draws kid hkid').1
  · exact (hdraws _ hkid).elim (fun hold ↦ h'.lists x hx hold)
      fun hnew ↦ hnew (htold'.shown x hx).2.1

/-! ### Commits -/

/-- The rows once a transaction has committed are sound. -/
theorem WritesOk.rows_commit (h : WritesOk options s w) (hrows : ∀ r ∈ s.rows, RowOk s r) :
    ∀ r ∈ w.view s.rows, RowOk s r :=
  fun _ hr ↦ (h.origin hrows hr).1

/-- What a transaction wrote stays sound when another one commits. -/
theorem WritesOk.commit (h : WritesOk options s w) (h' : WritesOk options s w')
    (hsep : Separate w w') :
    WritesOk options { s with rows := w'.view s.rows } w where
  named := h.named
  locked := h.locked
  active := h.active
  one := by
    refine h.one.commit h'.one fun k r k' r' hmem hmem' hstatus hstatus' hslot ↦ ?_
    refine hsep.locks _ (h.active k r hmem hstatus) ?_
    rw [hslot]
    exact h'.active k' r' hmem' hstatus'
  rows k r hmem := by
    obtain ⟨hpublished, hactivated, hwell, hdrawn⟩ := h.rows k r hmem
    exact ⟨hpublished, hactivated, hwell, hdrawn⟩
  later k r hmem := by
    have hkey : k ∉ w'.writes.keys := fun hk ↦
      hsep.locks _ (h.locked k (Writes.mem_keys.mpr ⟨some r, hmem⟩)) (h'.locked k hk)
    rcases h.later k r hmem with ⟨r₀, hr₀, hlater⟩ | ⟨hnone, hdrew⟩
    · refine .inl ⟨r₀, mem_commit.mpr (.inl ⟨hr₀, ?_⟩), hlater⟩
      rw [← hlater.key, h.named.named k r hmem]
      exact hkey
    · refine .inr ⟨fun r₀ hr₀ hkey₀ ↦ ?_, hdrew⟩
      rcases mem_commit.mp hr₀ with ⟨hr₀, -⟩ | ⟨k', hwritten⟩
      · exact hnone r₀ hr₀ hkey₀
      · rw [← hkey₀, h'.named.named k' r₀ hwritten] at hkey
        exact hkey (Writes.mem_keys.mpr ⟨some r₀, hwritten⟩)

/-- What a transaction was told stays sound when another one commits. -/
theorem ToldOk.commit (h : ToldOk s w) (hwrites' : WritesOk options s w') (hsep : Separate w w') :
    ToldOk { s with rows := w'.view s.rows } w where
  clock := h.clock
  draws kid hkid := by
    refine ⟨(h.draws kid hkid).1, fun r hr heq ↦ ?_⟩
    rcases mem_commit.mp hr with ⟨hr, -⟩ | ⟨k, hwritten⟩
    · exact (h.draws kid hkid).2 r hr heq
    · rcases hwrites'.later k r hwritten with ⟨r₀, hr₀, hlater⟩ | ⟨-, hdrew⟩
      · exact (h.draws kid hkid).2 r₀ hr₀ ((congrArg Prod.snd hlater.key).symm.trans heq)
      · rw [heq] at hdrew
        exact hsep.draws kid hkid hdrew
  shown x hx := by
    obtain ⟨hrealm, hdrawn, hshown⟩ := h.shown x hx
    refine ⟨hrealm, hdrawn, fun r hr hkey ↦ ?_⟩
    rcases mem_commit.mp hr with ⟨hr', hout⟩ | ⟨k, hwritten⟩
    · rcases mem_commit.mp hr' with ⟨hold, -⟩ | ⟨k', hwritten'⟩
      · exact hshown r (mem_commit.mpr (.inl ⟨hold, hout⟩)) hkey
      · rcases hwrites'.later k' r hwritten' with ⟨r₀, hr₀, hlater⟩ | ⟨-, hdrew⟩
        · rw [hlater.key] at hout hkey
          rw [hlater.shown]
          exact hshown r₀ (mem_commit.mpr (.inl ⟨hr₀, hout⟩)) hkey
        · rw [show r.kid = x.2.kid from congrArg Prod.snd hkey] at hdrew
          exact absurd hdrew (hsep.lists x hx)
    · exact hshown r (mem_commit.mpr (.inr ⟨k, hwritten⟩)) hkey

/-! ### Every step -/

/-- A step changes the rows by a commit alone; the clock and the ids drawn only grow. -/
theorem KeyStep.frame {a : KeyAction} (h : KeyStep options s a t) :
    (t.rows = s.rows ∧ s.now ≤ t.now ∧ ∀ id ∈ s.drawn, id ∈ t.drawn) ∨
      ∃ i tx, s.openTx i = some tx ∧
        t = { s.setTx i none with rows := tx.work.view s.rows } := by
  cases h with
  | tick => exact .inl ⟨rfl, Nat.le_succ _, fun id hid ↦ hid⟩
  | proceed i d tx hget c next hrunning p hdoes =>
    exact .inl ⟨rfl, le_rfl, fun id hid ↦ List.mem_append_right _ hid⟩
  | commit i tx hget => exact .inr ⟨i, tx, hget, rfl⟩
  | begin | call i call tx hget | returned i tx hget | threw i tx hget | rollback i tx hget =>
    exact .inl ⟨rfl, le_rfl, fun id hid ↦ hid⟩

theorem RowOk.mono (h : RowOk s row) (hnow : s.now ≤ t.now) (hdrawn : ∀ id ∈ s.drawn, id ∈ t.drawn) :
    RowOk t row :=
  ⟨fun n hn ↦ (h.published n hn).trans hnow, fun n hn ↦ (h.activated n hn).trans hnow,
    h.wellFormed, hdrawn _ h.drawn⟩

theorem WritesOk.mono (h : WritesOk options s w) (hrows : t.rows = s.rows) (hnow : s.now ≤ t.now)
    (hdrawn : ∀ id ∈ s.drawn, id ∈ t.drawn) (htrace : ∀ kid ∈ drew w.trace, kid ∈ drew w'.trace)
    (hwrites : w'.writes = w.writes) (hlocks : w'.locks = w.locks) : WritesOk options t w' where
  named := by
    rw [hwrites]
    exact h.named
  locked := by
    rw [hwrites, hlocks]
    exact h.locked
  active := by
    rw [hwrites, hlocks]
    exact h.active
  one := by
    rw [Work.view, hwrites, hrows]
    exact h.one
  rows k r hmem := by
    rw [hwrites] at hmem
    exact (h.rows k r hmem).mono hnow hdrawn
  later k r hmem := by
    rw [hwrites] at hmem
    rw [hrows]
    exact (h.later k r hmem).imp_right fun hboth ↦ ⟨hboth.1, htrace _ hboth.2⟩

theorem ToldOk.mono (h : ToldOk s w) (hrows : t.rows = s.rows) (hnow : s.now ≤ t.now)
    (hdrawn : ∀ id ∈ s.drawn, id ∈ t.drawn) : ToldOk t w where
  clock n hn := (h.clock n hn).trans hnow
  draws kid hkid := by
    rw [hrows]
    exact ⟨hdrawn _ (h.draws kid hkid).1, (h.draws kid hkid).2⟩
  shown x hx := by
    obtain ⟨hrealm, hid, hshown⟩ := h.shown x hx
    rw [hrows]
    exact ⟨hrealm, hdrawn _ hid, hshown⟩

theorem WorkOk.empty (hone : OneOf .active s.rows) : WorkOk options s .empty where
  writes := by
    refine ⟨.nil, (fun k hk ↦ by cases hk), (fun k r hmem ↦ by cases hmem), ?_,
      (fun k r hmem ↦ by cases hmem), (fun k r hmem ↦ by cases hmem)⟩
    rw [Work.view_empty]
    exact hone
  told := ⟨(fun n hn ↦ by cases hn), (fun kid hkid ↦ by cases hkid), (fun x hx ↦ by cases hx)⟩

theorem separate_empty : Separate w .empty ∧ Separate .empty w :=
  ⟨⟨(fun l _ h ↦ by cases h), (fun kid _ h ↦ by cases h), (fun x _ h ↦ by cases h)⟩,
    ⟨(fun l h ↦ by cases h), (fun kid h ↦ by cases h), (fun x h ↦ by cases h)⟩⟩

namespace StoreOk

variable (h : StoreOk options s)
include h

/-- A lock that was free is none of another transaction's. -/
theorem not_mem_of_free (hfree : s.freeLocks i locks = true) (hij : i ≠ j) (hw : s.HasWork j w) :
    ∀ l ∈ locks, l ∉ w.locks := by
  obtain ⟨tx, hget, hw⟩ := hw
  have hmem : some tx ∈ s.txs.eraseIdx i :=
    List.mem_eraseIdx_iff_getElem?.mpr ⟨j, hij.symm, Option.join_eq_some_iff.mp hget⟩
  have hall := List.all_eq_true.mp (List.all_eq_true.mp hfree _ hmem)
  intro l hl hl'
  have hwork : l ∈ tx.work.locks := by
    rcases hw with rfl | rfl
    · exact hl'
    · exact h.saved j tx hget l hl'
  refine of_decide_eq_true (hall l hl) ?_
  exact List.mem_map_of_mem hwork

/-- A step that commits nothing keeps the invariant of each transaction. -/
theorem work_step {a : KeyAction} (hstep : KeyStep options s a t) (hrows : t.rows = s.rows)
    (hnow : s.now ≤ t.now) (hdrawn : ∀ id ∈ s.drawn, id ∈ t.drawn) (hw : t.HasWork i w) :
    WorkOk options t w := by
  rcases hasWork_cases hstep hw with hold | rfl |
    ⟨d, tx, c, next, p, -, hget, hrunning, hdoes, rfl, hids⟩
  · obtain ⟨hwrites, htold⟩ := h.work i w hold
    exact ⟨hwrites.mono hrows hnow hdrawn (fun _ hk ↦ hk) rfl rfl, htold.mono hrows hnow hdrawn⟩
  · exact .empty (by rw [hrows]; exact h.one)
  · obtain ⟨hwrites, htold⟩ := h.work i tx.work ⟨tx, hget, .inl rfl⟩
    have hrule : KeyRule options tx.work.trace c := (h.obeys i tx _ hget hrunning).head
    constructor
    · refine (hwrites.does htold h.rows hrule hdoes).mono hrows hnow hdrawn ?_ rfl rfl
      intro kid hkid
      rw [Work.record, drew_append]
      exact List.mem_append_left _ hkid
    · refine (htold.does hwrites h.nodup h.rows hdoes).mono hrows hnow ?_
      rw [hids]
      exact fun id hid ↦ hid

/-- A step keeps a transaction separate from one that it leaves as it was. -/
theorem apart_of_hasWork {a : KeyAction} (hstep : KeyStep options s a t) (hij : i ≠ j)
    (hw : t.HasWork i w) (hw' : s.HasWork j w') : Separate w w' ∧ Separate w' w := by
  rcases hasWork_cases hstep hw with hold | rfl | ⟨d, tx, c, next, p, -, hget, -, hdoes, rfl, -⟩
  · exact ⟨h.apart i j w w' hij hold hw', h.apart j i w' w hij.symm hw' hold⟩
  · exact ⟨separate_empty.2, separate_empty.1⟩
  · have hold : s.HasWork i tx.work := ⟨tx, hget, .inl rfl⟩
    exact (h.apart i j _ _ hij hold hw').does (h.apart j i _ _ hij.symm hw' hold)
      (h.work i _ hold).writes (h.work j _ hw').told h.rows
      (fun locks hfree ↦ h.not_mem_of_free hfree hij hw') hdoes

/-- A step keeps the transactions separate. -/
theorem apart_step {a : KeyAction} (hstep : KeyStep options s a t) (hij : i ≠ j)
    (hw : t.HasWork i w) (hw' : t.HasWork j w') : Separate w w' := by
  rcases hasWork_cases hstep hw' with hold | rfl | ⟨d, tx, c, next, p, ha, -⟩
  · exact (h.apart_of_hasWork hstep hij hw hold).1
  · exact separate_empty.1
  · rcases hasWork_cases hstep hw with hold | rfl | ⟨d', tx', c', next', p', ha', -⟩
    · exact (h.apart_of_hasWork hstep hij.symm hw' hold).2
    · exact separate_empty.2
    · rw [ha] at ha'
      cases ha'
      exact absurd rfl hij

theorem obeys_step {a : KeyAction} {q : KeyProg KeyReturn} (hstep : KeyStep options s a t)
    (hget : t.openTx i = some tx) (hrunning : tx.running = some q) :
    Obeys (KeyRule options) tx.work.trace q := by
  cases hstep with
  | tick => exact h.obeys i tx q hget hrunning
  | begin =>
    rcases openTx_begin_cases hget with hold | rfl
    · exact h.obeys i tx q hold hrunning
    · cases hrunning
  | call i' call tx' hget' =>
    rcases openTx_setTx_cases hget' hget with ⟨rfl, htx⟩ | ⟨-, hold⟩
    · cases htx
      cases hrunning
      exact obeys_prog call
    · exact h.obeys i tx q hold hrunning
  | proceed i' d tx' hget' c next hrunning' p hdoes =>
    rcases openTx_setTx_cases hget' hget with ⟨rfl, htx⟩ | ⟨-, hold⟩
    · cases htx
      cases hrunning
      have htail := (h.obeys i tx' _ hget' hrunning').tail p.answer
      rw [← hdoes.adds.2.1] at htail
      exact htail
    · exact h.obeys i tx q hold hrunning
  | returned i' tx' hget' | threw i' tx' hget' =>
    rcases openTx_setTx_cases hget' hget with ⟨rfl, htx⟩ | ⟨-, hold⟩
    · cases htx
      cases hrunning
    · exact h.obeys i tx q hold hrunning
  | commit i' tx' hget' | rollback i' tx' hget' =>
    rcases openTx_setTx_cases hget' hget with ⟨rfl, htx⟩ | ⟨-, hold⟩
    · cases htx
    · exact h.obeys i tx q hold hrunning

/-- What a call goes back to holds no lock that the transaction does not hold. -/
theorem saved_step {a : KeyAction} (hstep : KeyStep options s a t) (hget : t.openTx i = some tx) :
    ∀ l ∈ tx.saved.locks, l ∈ tx.work.locks := by
  cases hstep with
  | tick => exact h.saved i tx hget
  | begin =>
    rcases openTx_begin_cases hget with hold | rfl
    · exact h.saved i tx hold
    · exact fun l hl ↦ by cases hl
  | call i' call tx' hget' | threw i' tx' hget' =>
    rcases openTx_setTx_cases hget' hget with ⟨rfl, htx⟩ | ⟨-, hold⟩
    · cases htx
      exact fun l hl ↦ hl
    · exact h.saved i tx hold
  | proceed i' d tx' hget' c next hrunning' p hdoes =>
    rcases openTx_setTx_cases hget' hget with ⟨rfl, htx⟩ | ⟨-, hold⟩
    · cases htx
      exact fun l hl ↦ hdoes.keeps_locks l (h.saved i tx' hget' l hl)
    · exact h.saved i tx hold
  | returned i' tx' hget' =>
    rcases openTx_setTx_cases hget' hget with ⟨rfl, htx⟩ | ⟨-, hold⟩
    · cases htx
      exact h.saved i tx' hget'
    · exact h.saved i tx hold
  | commit i' tx' hget' | rollback i' tx' hget' =>
    rcases openTx_setTx_cases hget' hget with ⟨rfl, htx⟩ | ⟨-, hold⟩
    · cases htx
    · exact h.saved i tx hold

/-- Every step keeps the invariant. -/
theorem step {a : KeyAction} (hstep : KeyStep options s a t) : StoreOk options t := by
  have hsaved : ∀ i tx, t.openTx i = some tx → ∀ l ∈ tx.saved.locks, l ∈ tx.work.locks :=
    fun i tx hget ↦ h.saved_step hstep hget
  have hobeys : ∀ i tx q, t.openTx i = some tx → tx.running = some q →
      Obeys (KeyRule options) tx.work.trace q :=
    fun i tx q hget hrunning ↦ h.obeys_step hstep hget hrunning
  have hapart : ∀ i j w w', i ≠ j → t.HasWork i w → t.HasWork j w' → Separate w w' :=
    fun i j w w' hij hw hw' ↦ h.apart_step hstep hij hw hw'
  rcases hstep.frame with ⟨hrows, hnow, hdrawn⟩ | ⟨i, tx, hget, rfl⟩
  · refine ⟨by rw [hrows]; exact h.nodup, by rw [hrows]; exact h.one, fun r hr ↦ ?_,
      fun i w hw ↦ h.work_step hstep hrows hnow hdrawn hw, hapart, hsaved, hobeys⟩
    rw [hrows] at hr
    exact (h.rows r hr).mono hnow hdrawn
  · have hown : s.HasWork i tx.work := ⟨tx, hget, .inl rfl⟩
    obtain ⟨hwrites, -⟩ := h.work i _ hown
    refine ⟨hwrites.nodup_view h.nodup, hwrites.one, fun r hr ↦ ?_, fun j w hw ↦ ?_, hapart,
      hsaved, hobeys⟩
    · exact (hwrites.rows_commit h.rows r hr).mono le_rfl fun id hid ↦ hid
    · obtain ⟨tx', hget', hw⟩ := hw
      rcases openTx_setTx_cases hget hget' with ⟨-, htx⟩ | ⟨hji, hold⟩
      · cases htx
      · have hother : s.HasWork j w := ⟨tx', hold, hw⟩
        obtain ⟨hwrites', htold'⟩ := h.work j w hother
        have hsep := h.apart j i w tx.work hji hother hown
        exact ⟨(hwrites'.commit hwrites hsep).mono rfl le_rfl (fun id hid ↦ hid) (fun _ hk ↦ hk)
          rfl rfl, (htold'.commit hwrites hsep).mono rfl le_rfl fun id hid ↦ hid⟩

end StoreOk

/-- Every reachable store is sound. -/
theorem storeOk_invariant (options : KeyFactoryOptions) :
    (KeyStore.system options).Invariant (StoreOk options) where
  initial s hs := by
    obtain ⟨hrows, htxs⟩ := hs
    have hnone : ∀ i, s.openTx i = none := fun i ↦ by
      rw [KeyStore.openTx, htxs]
      rfl
    have hwork : ∀ i w, ¬ s.HasWork i w := by
      rintro i w ⟨tx, hget, -⟩
      rw [hnone i] at hget
      cases hget
    refine ⟨by simp [hrows], fun r hr ↦ ?_, fun r hr ↦ ?_, fun i w hw ↦ (hwork i w hw).elim,
      fun i j w w' _ hw ↦ (hwork i w hw).elim, fun i tx hget ↦ ?_, fun i tx p hget ↦ ?_⟩
    · simp [hrows] at hr
    · simp [hrows] at hr
    · simp [hnone i] at hget
    · simp [hnone i] at hget
  step s a t h hstep := h.step (keyStep_cases hstep)

end QAuth.Keys
