import QAuth.Keys.KeyInvariant

/-!
# A scope's key can always be rotated

The one-active index keeps a slot to one active key. The rule that a slot has one key that waits is a
check alone: two creations that both check before either commits store two, and then no rotation of the
slot finds the one key it looks for. Where no creation passes its check while another open transaction
has passed its own for the same slot, a slot has one waiting key at most, and once it was shown for the
prepublish window a rotation that runs by itself activates it.
-/

namespace QAuth.Keys

open Locks ReadCommitted Transition
open Effect (Event)
open Program hiding ask

variable {options : KeyFactoryOptions} {s t : KeyStore} {w w' : Work} {i j : ℕ} {tx : KeyTx}
  {d : Drawn} {c : StoreCall} {p : Performed c} {row r r' : RealmKey} {a : KeyAction}
  {as : List KeyAction}

/-! ### A key over a run -/

/-- No row has the key, and none will. -/
structure Gone (k : String × String) (s : KeyStore) : Prop where
  drawn : k.2 ∈ s.drawn
  rows : ∀ r ∈ s.rows, r.key ≠ k
  draws : ∀ i w, s.HasWork i w → k.2 ∉ drew w.trace

/-- What became of a row: a later version of it, or it was deleted. -/
def Traced (options : KeyFactoryOptions) (row : RealmKey) (s : KeyStore) : Prop :=
  (∃ r ∈ s.rows, Later options row r) ∨ Gone row.key s

/-- No later transaction draws the id of a key again. -/
theorem not_mem_drew_of_step {kid : String} (hstep : KeyStep options s a t) (hdrawn : kid ∈ s.drawn)
    (hdraws : ∀ i w, s.HasWork i w → kid ∉ drew w.trace) (hw : t.HasWork i w) :
    kid ∉ drew w.trace := by
  rcases hasWork_cases hstep hw with hold | rfl | ⟨d, tx, c, next, p, -, hget, -, hdoes, rfl, -⟩
  · exact hdraws i w hold
  · exact fun h ↦ by cases h
  · obtain ⟨-, htrace, hdrew, -⟩ := hdoes.adds
    rw [Work.record, drew_append, htrace]
    intro hmem
    rcases List.mem_append.mp hmem with hmem | hmem
    · exact hdraws i tx.work ⟨tx, hget, .inl rfl⟩ hmem
    · exact hdrew kid (Option.mem_toList.mp hmem) hdrawn

theorem Traced.step (h : Traced options row s) (hs : StoreOk options s)
    (hstep : KeyStep options s a t) : Traced options row t := by
  have hdraws : row.key.2 ∈ s.drawn ∧ ∀ i w, s.HasWork i w → row.key.2 ∉ drew w.trace := by
    rcases h with ⟨r, hr, hlater⟩ | hgone
    · rw [← hlater.key]
      refine ⟨(hs.rows r hr).drawn, fun i w hw hmem ↦ ?_⟩
      exact ((hs.work i w hw).told.draws _ hmem).2 r hr rfl
    · exact ⟨hgone.drawn, hgone.draws⟩
  have hdraws' : ∀ i w, t.HasWork i w → row.key.2 ∉ drew w.trace :=
    fun i w hw ↦ not_mem_drew_of_step hstep hdraws.1 hdraws.2 hw
  rcases hstep.frame with ⟨hrows, -, hdrawn⟩ | ⟨i, tx, hget, rfl⟩
  · rcases h with ⟨r, hr, hlater⟩ | hgone
    · exact .inl ⟨r, by rw [hrows]; exact hr, hlater⟩
    · refine .inr ⟨hdrawn _ hdraws.1, ?_, hdraws'⟩
      rw [hrows]
      exact hgone.rows
  · have hwrites := (hs.work i tx.work ⟨tx, hget, .inl rfl⟩).writes
    have hown := hdraws.2 i tx.work ⟨tx, hget, .inl rfl⟩
    rcases h with ⟨r, hr, hlater⟩ | hgone
    · by_cases hkey : r.key ∈ tx.work.writes.keys
      · obtain ⟨v, hv⟩ := Writes.mem_keys.mp hkey
        cases v with
        | some r' =>
          rcases hwrites.later _ _ hv with ⟨r₀, hr₀, hafter⟩ | ⟨hnone, -⟩
          · have hsame : r₀ = r := by
              refine Table.eq_of_key_eq hs.nodup hr₀ hr ?_
              rw [← hafter.key, hwrites.named.named _ _ hv]
            rw [hsame] at hafter
            exact .inl ⟨r', mem_commit.mpr (.inr ⟨r.key, hv⟩), hlater.trans hafter⟩
          · exact absurd rfl (hnone r hr)
        | none =>
          refine .inr ⟨hdraws.1, fun r' hr' hkey' ↦ ?_, hdraws'⟩
          rw [← hlater.key] at hkey'
          rcases mem_commit.mp hr' with ⟨-, hout⟩ | ⟨k, hwritten⟩
          · rw [hkey'] at hout
            exact hout hkey
          · rw [← hwrites.named.named k r' hwritten, hkey'] at hwritten
            have heq := Table.eq_of_key_eq hwrites.named.nodup hwritten hv rfl
            cases heq
      · exact .inl ⟨r, mem_commit.mpr (.inl ⟨hr, hkey⟩), hlater⟩
    · refine .inr ⟨hdraws.1, fun r' hr' hkey' ↦ ?_, hdraws'⟩
      rcases mem_commit.mp hr' with ⟨hold, -⟩ | ⟨k, hwritten⟩
      · exact hgone.rows r' hold hkey'
      · rcases hwrites.later _ _ hwritten with ⟨r₀, hr₀, hafter⟩ | ⟨-, hdrew⟩
        · exact hgone.rows r₀ hr₀ (hafter.key.symm.trans hkey')
        · rw [show r'.kid = row.key.2 from congrArg Prod.snd hkey'] at hdrew
          exact hown hdrew

/-- A key only moves on: its row in a later state is a later version of the row. -/
theorem later_of_run (hrun : Run (KeyStore.step options) s as t) (hs : StoreOk options s)
    (hr : r ∈ s.rows) (hr' : r' ∈ t.rows) (hkey : r'.key = r.key) : Later options r r' := by
  have hboth : StoreOk options t ∧ Traced options r t := by
    refine hrun.induct (P := fun u ↦ StoreOk options u ∧ Traced options r u)
      (fun u a v hu hstep ↦ ?_) ⟨hs, .inl ⟨r, hr, .refl options r⟩⟩
    exact ⟨hu.1.step (keyStep_cases hstep), hu.2.step hu.1 (keyStep_cases hstep)⟩
  obtain ⟨ht, ⟨r₀, hr₀, hlater⟩ | hgone⟩ := hboth
  · rw [Table.eq_of_key_eq ht.nodup hr' hr₀ (hkey.trans hlater.key.symm)]
    exact hlater
  · exact absurd hkey (hgone.rows r' hr')

/-! ### Keys that wait -/

/-- The checks that an open transaction has passed. -/
def checksOf (tx : Option KeyTx) : List KeySlot :=
  (tx.map fun tx ↦ passedChecks tx.work.trace).getD []

/-- The check that the next statement of a transaction passes. -/
def nextCheck (s : KeyStore) (i : ℕ) : Option KeySlot :=
  (s.openTx i).bind fun tx ↦
    match tx.running with
    | some (.call (.listByRealm realmId filter) _) =>
      passedCheck ⟨.listByRealm realmId filter, listByRealm (tx.work.view s.rows) realmId filter⟩
    | _ => none

/-- No creation passes its check of a slot while another open transaction has passed its own. -/
def ChecksAlone (s : KeyStore) : KeyAction → Prop
  | .proceed i _ =>
    ∀ slot ∈ (nextCheck s i).toList, ∀ tx ∈ s.txs.eraseIdx i, slot ∉ checksOf tx
  | _ => True

instance (s : KeyStore) (a : KeyAction) : Decidable (ChecksAlone s a) := by
  unfold ChecksAlone
  split
  · exact inferInstanceAs (Decidable (∀ slot ∈ _, ∀ tx ∈ _, _))
  · exact .isTrue trivial

/-- The keys that wait, as a transaction sees them. -/
structure WaitsOk (s : KeyStore) (w : Work) : Prop where
  one : OneOf .next (w.view s.rows)
  waits : ∀ slot ∈ waiting w.trace, ∀ r ∈ w.view s.rows, r.status = .next → r.slot ≠ slot
  stored : ∀ k r, (k, some r) ∈ w.writes → r.status = .next → r.slot ∈ passedChecks w.trace

/-- The invariant of the keys that wait. -/
structure NextOk (s : KeyStore) : Prop where
  one : OneOf .next s.rows
  work : ∀ i w, s.HasWork i w → WaitsOk s w
  apart : ∀ i j w w', i ≠ j → s.HasWork i w → s.HasWork j w' →
    ∀ slot ∈ passedChecks w.trace, slot ∉ passedChecks w'.trace
  saved : ∀ i tx, s.openTx i = some tx →
    ∀ slot ∈ passedChecks tx.saved.trace, slot ∈ passedChecks tx.work.trace

theorem passedCheck_cases {e : Event StorePorts} {slot : KeySlot} (h : passedCheck e = some slot) :
    ∃ realmId filter rows, e = ⟨.listByRealm realmId filter, rows⟩ ∧ List.isEmpty rows = true ∧
      realmId = slot.realmId ∧
        filter = ⟨slot.purpose, slot.scopeId, some .next, some slot.algorithm⟩ := by
  unfold passedCheck at h
  split at h
  · rename_i realmId purpose scopeId algorithm rows
    obtain ⟨hempty, h⟩ := Option.ite_none_right_eq_some.mp h
    cases h
    exact ⟨realmId, _, rows, rfl, hempty, rfl, rfl⟩
  · cases h

/-- A check that passes has seen no key that waits. -/
theorem Does.check {free : List KeyLock → Bool} {slot : KeySlot} (h : Does s w free c p)
    (hcheck : passedCheck ⟨c, p.answer⟩ = some slot) :
    ∀ r ∈ w.view s.rows, r.status = .next → r.slot ≠ slot := by
  obtain ⟨realmId, filter, rows, heq, hempty, rfl, rfl⟩ := passedCheck_cases hcheck
  rintro r hr hstatus rfl
  have hcall : c = .listByRealm r.realmId
      ⟨r.purpose, r.scopeId, some .next, some r.algorithm⟩ := congrArg Effect.Event.call heq
  subst hcall
  cases h with
  | list _ _ =>
    have hrows := eq_of_heq (Effect.Event.mk.inj heq).2
    rw [← hrows, List.isEmpty_iff] at hempty
    have hmem : r ∈ listByRealm (w.view s.rows) r.realmId
        ⟨r.purpose, r.scopeId, some .next, some r.algorithm⟩ :=
      mem_listByRealm.mpr ⟨hr, rfl, by simp [StoredKeyFilter.admits, hstatus]⟩
    have hnone : listByRealm (w.view s.rows) r.realmId
        ⟨r.purpose, r.scopeId, some .next, some r.algorithm⟩ = [] := hempty
    rw [hnone] at hmem
    cases hmem
  | nothing _ a quiet => exact quiet.elim

/-- A statement that writes no row. -/
theorem WaitsOk.read {free : List KeyLock → Bool} (h : WaitsOk s w) (hdoes : Does s w free c p)
    (hwrites : p.work.writes = w.writes) : WaitsOk s (p.work.record c p.answer) where
  one := by
    rw [Work.view, Work.record, hwrites]
    exact h.one
  waits slot hslot r hr hstatus := by
    rw [Work.record, waiting_append, hdoes.adds.2.1] at hslot
    rw [Work.view, Work.record, hwrites] at hr
    rcases waitingAfter_subset hslot with hslot | hslot
    · exact h.waits slot hslot r hr hstatus
    · exact hdoes.check hslot r hr hstatus
  stored k r hmem hstatus := by
    rw [Work.record, hwrites] at hmem
    rw [Work.record, passedChecks_append, hdoes.adds.2.1]
    exact List.mem_append_left _ (h.stored k r hmem hstatus)

/-- A statement that writes a row which does not wait, or deletes one. -/
theorem WaitsOk.write {k : String × String} {v : Option RealmKey} {locks : List KeyLock}
    {e : Event StorePorts} (h : WaitsOk s w) (hnamed : w.writes.Named RealmKey.key)
    (hv : ∀ r ∈ v, r.key = k) (hleft : ∀ r ∈ v, r.status ≠ .next) (hcheck : passedCheck e = none)
    (hw' : w' = { w.write k v locks with trace := w.trace ++ [e] }) : WaitsOk s w' := by
  subst hw'
  have hone : OneOf .next ((w.write k v locks).view s.rows) :=
    h.one.write hnamed hv fun r hr hstatus ↦ absurd hstatus (hleft r hr)
  refine ⟨hone, fun slot hslot r hr hstatus ↦ ?_, fun k' r hmem hstatus ↦ ?_⟩
  · rw [waiting_append] at hslot
    rcases (mem_commit_put hnamed).mp hr with ⟨hview, -⟩ | heq
    · rcases waitingAfter_subset hslot with hslot | hslot
      · exact h.waits slot hslot r hview hstatus
      · rw [hcheck] at hslot
        cases hslot
    · exact absurd hstatus (hleft r heq)
  · rw [passedChecks_append]
    rcases Writes.mem_put.mp hmem with heq | ⟨hmem, -⟩
    · cases heq
      exact absurd hstatus (hleft r rfl)
    · exact List.mem_append_left _ (h.stored k' r hmem hstatus)

/-- A statement keeps the invariant of the keys that wait. -/
theorem WaitsOk.does {free : List KeyLock → Bool} (h : WaitsOk s w)
    (hwrites : WritesOk options s w) (hrule : KeyRule options w.trace c)
    (hdoes : Does s w free c p) : WaitsOk s (p.work.record c p.answer) := by
  have hdoes' := hdoes
  cases hdoes with
  | clock | generate algorithm generated fresh | list realmId filter | uuid id
    | lock realmId granted | nothing _ a quiet => exact h.read hdoes' rfl
  | store row granted new one =>
    have hnew : NewRow w.trace row := hrule
    have hone : OneOf .next ((w.write row.key (some row) (locksOf row)).view s.rows) := by
      refine h.one.write hwrites.named ?_ ?_
      · rintro r ⟨⟩
        rfl
      · rintro r ⟨⟩ hstatus r' hr' hstatus' hslot
        exact absurd hslot (h.waits _ (hnew.waits hstatus) r' hr' hstatus')
    refine ⟨hone, fun slot hslot r hr hstatus ↦ ?_, fun k r hmem hstatus ↦ ?_⟩
    · rw [Work.record, waiting_append] at hslot
      obtain ⟨hslot, hne⟩ := List.mem_filter.mp hslot
      rcases (mem_commit_put hwrites.named).mp hr with ⟨hview, -⟩ | heq
      · exact h.waits slot hslot r hview hstatus
      · cases heq
        exact fun heq ↦ of_decide_eq_true hne heq.symm
    · rw [Work.record, passedChecks_append]
      refine List.mem_append_left _ ?_
      rcases Writes.mem_put.mp hmem with heq | ⟨hmem, -⟩
      · cases heq
        exact mem_passedChecks_of_mem_waiting (hnew.waits hstatus)
      · exact h.stored k r hmem hstatus
  | move realmId kid change row mem key starts granted allowed =>
    refine h.write hwrites.named ?_ ?_ rfl rfl
    · rintro r ⟨⟩
      cases change <;> rfl
    · rintro r ⟨⟩
      cases change <;> exact fun hstatus ↦ by cases hstatus
  | delete realmId purpose scopeId kid row mem granted =>
    exact h.write hwrites.named (fun r hr ↦ by cases hr) (fun r hr ↦ by cases hr) rfl rfl

/-- The keys that wait, when another transaction commits. -/
theorem WaitsOk.commit (h : WaitsOk s w) (h' : WaitsOk s w')
    (hapart : ∀ slot ∈ passedChecks w.trace, slot ∉ passedChecks w'.trace) :
    WaitsOk { s with rows := w'.view s.rows } w where
  one := by
    refine h.one.commit h'.one fun k r k' r' hmem hmem' hstatus hstatus' hslot ↦ ?_
    refine hapart _ (h.stored k r hmem hstatus) ?_
    rw [hslot]
    exact h'.stored k' r' hmem' hstatus'
  waits slot hslot r hr hstatus := by
    rcases mem_commit.mp hr with ⟨hr', hout⟩ | ⟨k, hwritten⟩
    · rcases mem_commit.mp hr' with ⟨hold, -⟩ | ⟨k', hwritten'⟩
      · exact h.waits slot hslot r (mem_commit.mpr (.inl ⟨hold, hout⟩)) hstatus
      · rintro rfl
        exact hapart _ (mem_passedChecks_of_mem_waiting hslot) (h'.stored k' r hwritten' hstatus)
    · exact h.waits slot hslot r (mem_commit.mpr (.inr ⟨k, hwritten⟩)) hstatus
  stored := h.stored

theorem nextCheck_of_does {free : List KeyLock → Bool} {next : c.Answer → KeyProg KeyReturn}
    {slot : KeySlot} (hget : s.openTx i = some tx) (hrunning : tx.running = some (.call c next))
    (hdoes : Does s tx.work free c p) (hcheck : passedCheck ⟨c, p.answer⟩ = some slot) :
    nextCheck s i = some slot := by
  obtain ⟨realmId, filter, rows, heq, -⟩ := passedCheck_cases hcheck
  have hcall : c = .listByRealm realmId filter := congrArg Effect.Event.call heq
  subst hcall
  rw [nextCheck, hget, Option.bind_some, hrunning]
  cases hdoes with
  | list _ _ => exact hcheck
  | nothing _ a quiet => exact quiet.elim

theorem mem_passedChecks_of_step (hstep : KeyStep options s a t) (hw : t.HasWork i w)
    {slot : KeySlot} (hmem : slot ∈ passedChecks w.trace) :
    (∃ w₀, s.HasWork i w₀ ∧ slot ∈ passedChecks w₀.trace) ∨
      ∃ d, a = .proceed i d ∧ nextCheck s i = some slot := by
  rcases hasWork_cases hstep hw with hold | rfl |
    ⟨d, tx, c, next, p, rfl, hget, hrunning, hdoes, rfl, -⟩
  · exact .inl ⟨w, hold, hmem⟩
  · cases hmem
  · rw [Work.record, passedChecks_append, hdoes.adds.2.1] at hmem
    rcases List.mem_append.mp hmem with hmem | hmem
    · exact .inl ⟨tx.work, ⟨tx, hget, .inl rfl⟩, hmem⟩
    · exact .inr ⟨d, rfl, nextCheck_of_does hget hrunning hdoes (Option.mem_toList.mp hmem)⟩

namespace NextOk

variable (h : NextOk s)
include h

/-- A check that is made alone is none that another transaction has passed. -/
theorem not_mem_of_checksAlone (hC : ChecksAlone s (.proceed i d)) {slot : KeySlot}
    (hcheck : nextCheck s i = some slot) (hij : i ≠ j) (hw : s.HasWork j w) :
    slot ∉ passedChecks w.trace := by
  obtain ⟨tx, hget, hw⟩ := hw
  have hmem : some tx ∈ s.txs.eraseIdx i :=
    List.mem_eraseIdx_iff_getElem?.mpr ⟨j, hij.symm, Option.join_eq_some_iff.mp hget⟩
  have hout : slot ∉ passedChecks tx.work.trace :=
    hC slot (Option.mem_toList.mpr hcheck) (some tx) hmem
  rcases hw with rfl | rfl
  · exact hout
  · exact fun hsaved ↦ hout (h.saved j tx hget slot hsaved)

theorem apart_step (hstep : KeyStep options s a t) (hC : ChecksAlone s a) (hij : i ≠ j)
    (hw : t.HasWork i w) (hw' : t.HasWork j w') :
    ∀ slot ∈ passedChecks w.trace, slot ∉ passedChecks w'.trace := by
  intro slot hmem hmem'
  rcases mem_passedChecks_of_step hstep hw hmem with ⟨w₀, hold, hmem⟩ | ⟨d, rfl, hcheck⟩
  · rcases mem_passedChecks_of_step hstep hw' hmem' with ⟨w₀', hold', hmem'⟩ | ⟨d, rfl, hcheck⟩
    · exact h.apart i j w₀ w₀' hij hold hold' slot hmem hmem'
    · exact h.not_mem_of_checksAlone hC hcheck hij.symm hold hmem
  · rcases mem_passedChecks_of_step hstep hw' hmem' with ⟨w₀', hold', hmem'⟩ | ⟨d', ha, -⟩
    · exact h.not_mem_of_checksAlone hC hcheck hij hold' hmem'
    · cases ha
      exact hij rfl

theorem saved_step (hstep : KeyStep options s a t) (hget : t.openTx i = some tx) :
    ∀ slot ∈ passedChecks tx.saved.trace, slot ∈ passedChecks tx.work.trace := by
  cases hstep with
  | tick => exact h.saved i tx hget
  | begin =>
    rcases openTx_begin_cases hget with hold | rfl
    · exact h.saved i tx hold
    · exact fun l hl ↦ by cases hl
  | call i' call tx' hget' | threw i' tx' hget' =>
    rcases openTx_setTx_cases hget' hget with ⟨rfl, htx⟩ | ⟨-, hold⟩
    · cases htx
      exact fun l hl ↦ hl
    · exact h.saved i tx hold
  | proceed i' d tx' hget' c next hrunning' p hdoes =>
    rcases openTx_setTx_cases hget' hget with ⟨rfl, htx⟩ | ⟨-, hold⟩
    · cases htx
      intro slot hslot
      rw [Work.record, passedChecks_append, hdoes.adds.2.1]
      exact List.mem_append_left _ (h.saved i tx' hget' slot hslot)
    · exact h.saved i tx hold
  | returned i' tx' hget' =>
    rcases openTx_setTx_cases hget' hget with ⟨rfl, htx⟩ | ⟨-, hold⟩
    · cases htx
      exact h.saved i tx' hget'
    · exact h.saved i tx hold
  | commit i' tx' hget' | rollback i' tx' hget' =>
    rcases openTx_setTx_cases hget' hget with ⟨rfl, htx⟩ | ⟨-, hold⟩
    · cases htx
    · exact h.saved i tx hold

/-- A step whose check is made alone keeps the invariant. -/
theorem step (hs : StoreOk options s) (hstep : KeyStep options s a t) (hC : ChecksAlone s a) :
    NextOk t := by
  have hapart : ∀ i j w w', i ≠ j → t.HasWork i w → t.HasWork j w' →
      ∀ slot ∈ passedChecks w.trace, slot ∉ passedChecks w'.trace :=
    fun i j w w' hij hw hw' ↦ h.apart_step hstep hC hij hw hw'
  have hsaved : ∀ i tx, t.openTx i = some tx →
      ∀ slot ∈ passedChecks tx.saved.trace, slot ∈ passedChecks tx.work.trace :=
    fun i tx hget ↦ h.saved_step hstep hget
  rcases hstep.frame with ⟨hrows, -, -⟩ | ⟨i, tx, hget, rfl⟩
  · refine ⟨by rw [hrows]; exact h.one, fun i w hw ↦ ?_, hapart, hsaved⟩
    have hsame : ∀ {w}, WaitsOk s w → WaitsOk t w := fun {w} hw ↦
      ⟨by rw [hrows]; exact hw.one, by rw [hrows]; exact hw.waits, hw.stored⟩
    rcases hasWork_cases hstep hw with hold | rfl |
      ⟨d, tx, c, next, p, -, hget, hrunning, hdoes, rfl, -⟩
    · exact hsame (h.work i w hold)
    · refine ⟨?_, (fun slot hslot ↦ by cases hslot), (fun k r hmem ↦ by cases hmem)⟩
      rw [Work.view_empty, hrows]
      exact h.one
    · have hold : s.HasWork i tx.work := ⟨tx, hget, .inl rfl⟩
      exact hsame ((h.work i _ hold).does (hs.work i _ hold).writes
        (hs.obeys i tx _ hget hrunning).head hdoes)
  · have hown : s.HasWork i tx.work := ⟨tx, hget, .inl rfl⟩
    refine ⟨(h.work i _ hown).one, fun j w hw ↦ ?_, hapart, hsaved⟩
    obtain ⟨tx', hget', hw⟩ := hw
    rcases openTx_setTx_cases hget hget' with ⟨-, htx⟩ | ⟨hji, hold⟩
    · cases htx
    · have hother : s.HasWork j w := ⟨tx', hold, hw⟩
      have hstays := (h.work j w hother).commit (h.work i _ hown)
        (h.apart j i w tx.work hji hother hown)
      exact ⟨hstays.one, hstays.waits, hstays.stored⟩

end NextOk

/-! ### A call that runs by itself -/

/-- The call of the `i`th transaction goes on by itself, and draws nothing. -/
inductive GoesOn (s : KeyStore) (i : ℕ) (d : Drawn) {α : Type} :
    Work → KeyProg α → Work → KeyProg α → Prop
  | refl (w : Work) (q : KeyProg α) : GoesOn s i d w q w q
  | step {w w' : Work} {c : StoreCall} {next : c.Answer → KeyProg α} {q : KeyProg α}
      {p : Performed c} (performs : perform s w (s.freeLocks i) d c = some p)
      (drawn : p.drawn = [])
      (rest : GoesOn s i d (p.work.record c p.answer) (next p.answer) w' q) :
      GoesOn s i d w (.call c next) w' q

section GoesOn

variable {α β : Type} {q q' q'' : KeyProg α} {w'' : Work} {f : α → KeyProg β} {saved : Work}

theorem GoesOn.trans (h : GoesOn s i d w q w' q') (h' : GoesOn s i d w' q' w'' q'') :
    GoesOn s i d w q w'' q'' := by
  induction h with
  | refl => exact h'
  | step performs drawn _ ih => exact .step performs drawn (ih h')

theorem GoesOn.bind (h : GoesOn s i d w q w' q') :
    GoesOn s i d w (q >>= f) w' (q' >>= f) := by
  induction h with
  | refl w q => exact .refl w _
  | step performs drawn _ ih => exact .step performs drawn ih

/-- One call after another. -/
theorem GoesOn.seq {a : α} {q' : KeyProg β} (h : GoesOn s i d w q w' (.done (.ok a)))
    (h' : GoesOn s i d w' (f a) w'' q') : GoesOn s i d w (q >>= f) w'' q' :=
  (h.bind).trans h'

theorem freeLocks_setTx (v : Option KeyTx) : (s.setTx i v).freeLocks i = s.freeLocks i := by
  funext locks
  rw [KeyStore.freeLocks, KeyStore.freeLocks, KeyStore.setTx, List.eraseIdx_set_eq]

theorem GoesOn.run (options : KeyFactoryOptions) (saved : Work) {q q' : KeyProg KeyReturn} (h : GoesOn s i d w q w' q')
    (hget : s.openTx i = some tx) :
    ∃ n, Run (KeyStore.step options) (s.setTx i (some ⟨w, saved, some q⟩))
      (List.replicate n (.proceed i d)) (s.setTx i (some ⟨w', saved, some q'⟩)) := by
  induction h with
  | refl w q => exact ⟨0, .nil _⟩
  | @step w w' c next q p performs drawn _ ih =>
    obtain ⟨n, hrun⟩ := ih
    refine ⟨n + 1, .cons ?_ hrun⟩
    have hopen := openTx_setTx_self hget (some ⟨w, saved, some (.call c next)⟩)
    have hperform : perform (s.setTx i (some ⟨w, saved, some (.call c next)⟩)) w
        ((s.setTx i (some ⟨w, saved, some (.call c next)⟩)).freeLocks i) d c = some p := by
      rw [freeLocks_setTx]
      exact performs
    show ((s.setTx i _).openTx i).bind _ = _
    rw [hopen, Option.bind_some, KeyStore.proceed]
    dsimp only
    rw [hperform, Option.map_some, drawn]
    simp [KeyStore.setTx]

theorem GoesOn.commits (options : KeyFactoryOptions) {call : KeyCall} {v : KeyReturn}
    (h : GoesOn s i d w (call.prog options) w' (.done (.ok v)))
    (hget : s.openTx i = some ⟨w, saved, none⟩) :
    ∃ n t, Run (KeyStore.step options) s
      (.call i call :: (List.replicate n (.proceed i d) ++ [.finish i, .commit i])) t ∧
        t.rows = w'.view s.rows := by
  obtain ⟨n, hrun⟩ := h.run options w hget
  have hcall : s.step options (.call i call) =
      some (s.setTx i (some ⟨w, w, some (call.prog options)⟩)) := by
    rw [KeyStore.step, hget]
    rfl
  generalize hv : s.setTx i (some ⟨w', w, some (.done (.ok v))⟩) = t at hrun
  have hrows : t.rows = s.rows := by rw [← hv]; rfl
  have hopen : t.openTx i = some ⟨w', w, some (.done (.ok v))⟩ := by
    rw [← hv]
    exact openTx_setTx_self hget _
  have hfinish : t.step options (.finish i) = some (t.setTx i (some ⟨w', w, none⟩)) := by
    rw [KeyStore.step, hopen]
    rfl
  have hcommit : (t.setTx i (some ⟨w', w, none⟩)).step options (.commit i) =
      some { (t.setTx i (some ⟨w', w, none⟩)).setTx i none with rows := w'.view t.rows } := by
    rw [KeyStore.step, openTx_setTx_self hopen]
    rfl
  exact ⟨n, _, .cons hcall (hrun.append (.cons hfinish (.cons hcommit (.nil _)))),
    by rw [← hrows]⟩

end GoesOn

/-! ### A rotation -/

/-- The statement of a rotation step that finds its key. -/
theorem goesOn_moveKey {change : StoredKeyStatusChange} (hview : row ∈ w.view s.rows)
    (hnodup : ((w.view s.rows).map RealmKey.key).Nodup) (hstarts : row.status = change.startsAt)
    (hallowed : violated (w.view s.rows) row change = none)
    (hfree : ∀ locks, s.freeLocks i locks = true) :
    ∃ w', GoesOn s i d w (moveKey row.realmId row.purpose row.kid change) w' (pure ()) ∧
      w'.writes = w.writes.put row.key (some (change.apply row)) := by
  have hfind : (w.view s.rows).find? (·.key = (row.realmId, row.kid)) = some row :=
    current_of_mem hnodup hview
  have hperform : perform s w (s.freeLocks i) d (.updateStatus row.realmId row.kid change) =
      some ⟨.ok (some (change.apply row)), w.write row.key (some (change.apply row))
        [.row row.key, .active row.slot], []⟩ := by
    rw [perform, hfind]
    simp [hstarts, hfree, hallowed]
  exact ⟨_, .step hperform rfl (.refl _ _), rfl⟩

theorem goesOn_retireEach (olds : List RealmKey) {purpose : KeyPurpose} {realmId : String}
    {u : Option ℕ} (hnodup : (s.rows.map RealmKey.key).Nodup)
    (hnamed : w.writes.Named RealmKey.key)
    (holds : ∀ old ∈ olds, old ∈ w.view s.rows ∧ old.status = .active ∧ old.realmId = realmId ∧
      old.purpose = purpose ∧ violated [] old (.retired s.now u) = none)
    (hkeys : (olds.map RealmKey.key).Nodup) (hfree : ∀ locks, s.freeLocks i locks = true) :
    ∃ w', GoesOn s i d w (retireEach realmId purpose s.now u olds) w' (pure ()) ∧
      w'.writes.Named RealmKey.key ∧ ∀ r, r ∈ w'.view s.rows ↔
        (r ∈ w.view s.rows ∧ r.key ∉ olds.map RealmKey.key) ∨
          ∃ old ∈ olds, r = old.retire s.now u := by
  induction olds generalizing w with
  | nil => exact ⟨w, .refl _ _, hnamed, by simp⟩
  | cons old rest ih =>
    obtain ⟨hview, hactive, hrealm, hpurpose, hallowed⟩ := holds old List.mem_cons_self
    obtain ⟨hfresh, hkeys⟩ := List.nodup_cons.mp hkeys
    have hstarts : old.status = (StoredKeyStatusChange.retired s.now u).startsAt := hactive
    obtain ⟨w₁, hmove, hput⟩ := goesOn_moveKey (d := d) hview (nodup_commit hnodup hnamed) hstarts
      hallowed hfree
    rw [hrealm, hpurpose] at hmove
    have hmem : ∀ r, r ∈ w₁.view s.rows ↔
        (r ∈ w.view s.rows ∧ r.key ≠ old.key) ∨ some (old.retire s.now u) = some r := by
      intro r
      rw [Work.view, hput]
      exact mem_commit_put hnamed
    have hnamed₁ : w₁.writes.Named RealmKey.key := by
      rw [hput]
      refine hnamed.put fun r hr ↦ ?_
      cases hr
      rfl
    obtain ⟨w', hrest, hnamed', hview'⟩ := ih hnamed₁ (fun old' hold' ↦ by
      obtain ⟨hview', hrest⟩ := holds old' (List.mem_cons_of_mem _ hold')
      refine ⟨(hmem old').mpr (.inl ⟨hview', fun hkey ↦ hfresh ?_⟩), hrest⟩
      exact List.mem_map.mpr ⟨old', hold', hkey⟩) hkeys
    refine ⟨w', hmove.seq hrest, hnamed', fun r ↦ ?_⟩
    rw [hview']
    constructor
    · rintro (⟨hr, hout⟩ | ⟨old', hold', rfl⟩)
      · rcases (hmem r).mp hr with ⟨hr, hne⟩ | heq
        · exact .inl ⟨hr, by simp [hne, hout]⟩
        · cases heq
          exact .inr ⟨old, List.mem_cons_self, rfl⟩
      · exact .inr ⟨old', List.mem_cons_of_mem _ hold', rfl⟩
    · rintro (⟨hr, hout⟩ | ⟨old', hold', rfl⟩)
      · rw [List.map_cons, List.mem_cons, not_or] at hout
        exact .inl ⟨(hmem r).mpr (.inl ⟨hr, hout.1⟩), hout.2⟩
      · rcases List.mem_cons.mp hold' with rfl | hold'
        · exact .inl ⟨(hmem _).mpr (.inr rfl), hfresh⟩
        · exact .inr ⟨old', hold', rfl⟩

/-- What `activateNextKey` finds of the slot of a key that waits. -/
theorem filter_listByRealm_eq {scopeId : String} (hnodup : (s.rows.map RealmKey.key).Nodup)
    (hone : OneOf .next s.rows) (hr : row ∈ s.rows) (hnext : row.status = .next)
    (hscope : row.scopeId = some scopeId) :
    (listByRealm s.rows row.realmId ⟨row.purpose, some scopeId, none, some row.algorithm⟩).filter
      (·.status = .next) = [row] := by
  have hmem : ∀ r, r ∈ (listByRealm s.rows row.realmId
      ⟨row.purpose, some scopeId, none, some row.algorithm⟩).filter (·.status = .next) ↔
        r = row := by
    intro r
    rw [List.mem_filter, mem_listByRealm]
    constructor
    · rintro ⟨⟨hmem, hrealm, hadmits⟩, hstatus⟩
      have hslot : r.slot = row.slot := by
        simp [StoredKeyFilter.admits] at hadmits
        simp [RealmKey.slot, hrealm, hadmits, hscope]
      have hkey := hone r hmem row hr (of_decide_eq_true hstatus) hnext hslot
      exact Table.eq_of_key_eq hnodup hmem hr hkey
    · rintro rfl
      exact ⟨⟨hr, rfl, by simp [StoredKeyFilter.admits, hscope]⟩, decide_eq_true hnext⟩
  have hlist : (listByRealm s.rows row.realmId
      ⟨row.purpose, some scopeId, none, some row.algorithm⟩).Nodup := by
    refine Table.perm_orderBy.nodup_iff.mpr (List.Nodup.filter _ ?_)
    exact hnodup.of_map
  exact (List.perm_singleton.mp
    ((List.perm_ext_iff_of_nodup (hlist.filter _) (List.nodup_singleton row)).mpr
      fun r ↦ (hmem r).trans List.mem_singleton.symm))

theorem violated_retired {rows : List RealmKey} {published : Bool} {now retention : ℕ}
    {unpublishAt : Option ℕ}
    (hunpublish : (if published then some (now + retention) else none) = unpublishAt)
    (hpublished : ∀ n ∈ row.publishAt, n ≤ now + retention) :
    violated rows row (.retired now unpublishAt) = none := by
  rw [violated, if_neg]
  rw [← hunpublish, Option.any_eq_true]
  rintro ⟨u, hu, hlate⟩
  obtain ⟨-, hu⟩ := Option.ite_none_right_eq_some.mp hu
  cases hu
  obtain ⟨n, hn, hlt⟩ := (Option.any_eq_true _ _).mp hlate
  exact absurd (of_decide_eq_true hlt) (not_lt.mpr (hpublished n hn))

/-- A rotation that runs by itself activates the key that waits. -/
theorem goesOn_activateNextKey (row : RealmKey) {scopeId : String} (hs : StoreOk options s)
    (hone : OneOf .next s.rows) (hr : row ∈ s.rows) (hnext : row.status = .next)
    (hscope : row.scopeId = some scopeId) (hshown : row.shownAt + options.prepublishMs ≤ s.now)
    (hfree : ∀ locks, s.freeLocks i locks = true) :
    ∃ w' key, GoesOn s i d .empty
      (activateNextKey options ⟨row.realmId, row.purpose, scopeId⟩ (some row.algorithm)) w'
      (.done (.ok key)) ∧ row.activate s.now ∈ w'.view s.rows := by
  have hwell : WellFormed row := (hs.rows row hr).wellFormed
  obtain ⟨hisScoped, hisScope⟩ := hwell.scope scopeId (Option.mem_def.mpr hscope)
  have hresolve : resolveScopedKey ⟨row.realmId, row.purpose, scopeId⟩ =
      .ok ⟨row.realmId, row.purpose, scopeId⟩ := by
    simp [resolveScopedKey, Guards.refuseIf, hwell.realm, hisScoped, hisScope, hwell.lower]
  have halgorithm : (KEY_PURPOSES row.purpose).algorithms.contains row.algorithm = true :=
    List.contains_iff_mem.mpr hwell.algorithm
  have hfilter := filter_listByRealm_eq hs.nodup hone hr hnext hscope
  generalize hkeys : listByRealm s.rows row.realmId
    ⟨row.purpose, some scopeId, none, some row.algorithm⟩ = keys at hfilter
  generalize hunpublish : (if (KEY_PURPOSES row.purpose).published then
    some (s.now + options.retiredRetentionMs) else none) = unpublishAt
  have hlisted : ∀ r ∈ keys, r ∈ s.rows ∧ r.realmId = row.realmId ∧ r.purpose = row.purpose := by
    intro r hr'
    rw [← hkeys, mem_listByRealm] at hr'
    obtain ⟨hmem, hrealm, hadmits⟩ := hr'
    simp [StoredKeyFilter.admits] at hadmits
    exact ⟨hmem, hrealm, hadmits.1.1⟩
  have hsees : ∀ r ∈ s.rows, ∀ trace : List (Event StorePorts),
      r ∈ (Work.mk [] [] trace).view s.rows := by
    intro r hmem trace
    exact mem_commit.mpr (.inl ⟨hmem, List.not_mem_nil⟩)
  have hsub : (keys.map RealmKey.key).Nodup := by
    rw [← hkeys, listByRealm, (Table.perm_orderBy.map RealmKey.key).nodup_iff]
    exact (List.filter_sublist.map _).nodup hs.nodup
  obtain ⟨w₁, hretire, hnamed, hview⟩ := goesOn_retireEach
    (keys.filter (·.status = .active)) (d := d) (u := unpublishAt)
    (w := ⟨[], [], [⟨.listByRealm row.realmId
      ⟨row.purpose, some scopeId, none, some row.algorithm⟩, keys⟩, ⟨.now, s.now⟩]⟩)
    hs.nodup .nil
    (fun old hold ↦ by
      obtain ⟨hmem, hstatus⟩ := List.mem_filter.mp hold
      obtain ⟨hmem, hrealm, hpurpose⟩ := hlisted old hmem
      refine ⟨hsees old hmem _, of_decide_eq_true hstatus, hrealm, hpurpose, ?_⟩
      exact violated_retired hunpublish fun n hn ↦
        ((hs.rows old hmem).published n hn).trans (Nat.le_add_right _ _))
    ((List.filter_sublist.map _).nodup hsub) hfree
  have hwaits : row ∈ w₁.view s.rows := by
    refine (hview row).mpr (.inl ⟨hsees row hr _, fun hkey ↦ ?_⟩)
    obtain ⟨old, hold, hkey⟩ := List.mem_map.mp hkey
    obtain ⟨hmem, hstatus⟩ := List.mem_filter.mp hold
    rw [Table.eq_of_key_eq hs.nodup (hlisted old hmem).1 hr hkey, hnext] at hstatus
    cases hstatus
  have hplace : violated (w₁.view s.rows) row (.active s.now) = none := by
    rw [violated, if_neg]
    rw [hasActive, List.any_eq_true]
    rintro ⟨r, hmem, hr'⟩
    obtain ⟨hslot, hactive⟩ : r.slot = row.slot ∧ r.status = .active := by simpa using hr'
    rcases (hview r).mp hmem with ⟨hmem, hout⟩ | ⟨old, -, rfl⟩
    · have hrow : r ∈ s.rows := by
        rcases mem_commit.mp hmem with ⟨hrow, -⟩ | ⟨k, hmem⟩
        · exact hrow
        · cases hmem
      refine hout (List.mem_map_of_mem (List.mem_filter.mpr ⟨?_, decide_eq_true hactive⟩))
      rw [← hkeys, mem_listByRealm]
      simp only [RealmKey.slot, KeySlot.mk.injEq] at hslot
      obtain ⟨hrealm, hpurpose, hscope', halgorithm⟩ := hslot
      exact ⟨hrow, hrealm, by
        simp [StoredKeyFilter.admits, hpurpose, hscope', hscope, halgorithm]⟩
    · cases hactive
  have hstarts : row.status = (StoredKeyStatusChange.active s.now).startsAt := hnext
  obtain ⟨w₂, hmove, hput⟩ := goesOn_moveKey (d := d) hwaits (nodup_commit hs.nodup hnamed) hstarts
    hplace hfree
  have hactive : row.activate s.now ∈ w₂.view s.rows := by
    rw [Work.view, hput]
    exact (mem_commit_put hnamed).mpr (.inr rfl)
  refine ⟨w₂, ⟨row.kid, (keys.filter (·.status = .active)).head?.map (·.kid), s.now,
    if keys.filter (·.status = .active) = [] then none else unpublishAt⟩, ?_, hactive⟩
  rw [activateNextKey, hresolve]
  show GoesOn s i d _ (if !(KEY_PURPOSES row.purpose).algorithms.contains row.algorithm then _
    else _) _ _
  rw [halgorithm]
  refine .step (p := ⟨keys, .empty, []⟩) ?_ rfl ?_
  · show some _ = some _
    rw [Work.view_empty, ← hkeys]
    rfl
  dsimp only [Prog.bind]
  rw [hfilter]
  refine .step (p := ⟨s.now, _, []⟩) rfl rfl ?_
  dsimp only [Prog.bind]
  rw [if_neg (by omega), hunpublish]
  exact hretire.seq (hmove.seq (.refl _ _))

/-! ### Whole runs -/

/-- The first open transactions can be rolled back. -/
theorem run_rollbacks (options : KeyFactoryOptions) {n : ℕ} (hn : n ≤ s.txs.length) :
    ∃ rollbacks, (∀ a ∈ rollbacks, ∃ j, a = KeyAction.rollback j) ∧
      Run (KeyStore.step options) s rollbacks
        { s with txs := List.replicate n none ++ s.txs.drop n } := by
  induction n with
  | zero => exact ⟨[], fun a ha ↦ (List.not_mem_nil ha).elim, .nil s⟩
  | succ n ih =>
    have hlt : n < s.txs.length := hn
    obtain ⟨rollbacks, hall, hrun⟩ := ih hlt.le
    have hshift : List.replicate (n + 1) none ++ s.txs.drop (n + 1) =
        List.replicate n none ++ none :: s.txs.drop (n + 1) := by
      rw [List.replicate_succ', List.append_assoc, List.singleton_append]
    rw [List.drop_eq_getElem_cons hlt] at hrun
    rw [hshift]
    cases htx : s.txs[n] with
    | none =>
      rw [htx] at hrun
      exact ⟨rollbacks, hall, hrun⟩
    | some tx =>
      rw [htx] at hrun
      refine ⟨rollbacks ++ [.rollback n], fun a ha ↦ ?_, hrun.append (.cons ?_ (.nil _))⟩
      · rcases List.mem_append.mp ha with ha | ha
        · exact hall a ha
        · exact ⟨n, List.mem_singleton.mp ha⟩
      · simp [KeyStore.step, KeyStore.openTx, KeyStore.setTx]

/-- A rotation of a key's scope in a transaction of its own. -/
def rotationOf (i : ℕ) (row : RealmKey) (scopeId : String) (n : ℕ) (d : Drawn) : List KeyAction :=
  [.begin, .call i (.activateNextKey ⟨row.realmId, row.purpose, scopeId⟩ (some row.algorithm))] ++
    List.replicate n (.proceed i d) ++ [.finish i, .commit i]

/-- Once the transactions that are open have rolled back, a rotation activates the key. -/
def Rotates (options : KeyFactoryOptions) (s : KeyStore) (row : RealmKey) (scopeId : String) :
    Prop :=
  ∃ rollbacks, (∀ a ∈ rollbacks, ∃ j, a = KeyAction.rollback j) ∧ ∀ d, ∃ n t,
    Run (KeyStore.step options) s (rollbacks ++ rotationOf s.txs.length row scopeId n d) t ∧
      ∃ r ∈ t.rows, r.key = row.key ∧ r.status = .active

/-- A key that waits alone and was shown for the prepublish window can be rotated. -/
theorem rotates_of_oneOf {scopeId : String} (hs : StoreOk options s) (hone : OneOf .next s.rows)
    (hr : row ∈ s.rows) (hnext : row.status = .next) (hscope : row.scopeId = some scopeId)
    (hshown : row.shownAt + options.prepublishMs ≤ s.now) : Rotates options s row scopeId := by
  obtain ⟨rollbacks, hall, hrolled⟩ := run_rollbacks options (le_refl s.txs.length)
  rw [List.drop_length, List.append_nil] at hrolled
  refine ⟨rollbacks, hall, fun d ↦ ?_⟩
  generalize hi : s.txs.length = i at *
  -- the store once the rotation's transaction has begun
  generalize hu : ({ s with txs := List.replicate i none ++ [some ⟨.empty, .empty, none⟩] } :
    KeyStore) = u
  have hbegun : Run (KeyStore.step options) s (rollbacks ++ [.begin]) u :=
    hrolled.append (.cons (by rw [← hu]; rfl) (.nil u))
  have hok : StoreOk options u := hbegun.induct (fun _ _ _ hu hstep ↦ hu.step (keyStep_cases hstep)) hs
  have hget : u.openTx i = some ⟨.empty, .empty, none⟩ := by
    simp [← hu, KeyStore.openTx]
  have hfree : ∀ locks, u.freeLocks i locks = true := by
    intro locks
    rw [KeyStore.freeLocks, List.all_eq_true]
    intro tx htx
    rw [← hu, List.eraseIdx_append_of_length_le (by simp)] at htx
    have hnone : tx = none := (List.mem_replicate.mp (by simpa using htx)).2
    rw [hnone]
    simp [heldLocks]
  obtain ⟨w, key, hgoes, hactive⟩ := goesOn_activateNextKey (d := d) row hok
    (by rw [← hu]; exact hone) (by rw [← hu]; exact hr) hnext hscope (by rw [← hu]; exact hshown)
    hfree
  have hends : GoesOn u i d .empty (KeyCall.prog options
      (.activateNextKey ⟨row.realmId, row.purpose, scopeId⟩ (some row.algorithm))) w
      (.done (.ok (.activated key))) :=
    hgoes.bind (f := fun key ↦ pure (KeyReturn.activated key))
  obtain ⟨n, t, hrun, hrows⟩ := hends.commits options hget
  refine ⟨n, t, ?_, row.activate u.now, by rw [hrows]; exact hactive, rfl, rfl⟩
  simpa [rotationOf] using hbegun.append hrun

/-- The invariant of the keys that wait, in every run whose checks are made alone. -/
theorem nextOk_of_along (hs : StoreOk options s) (hnext : NextOk s)
    (hrun : Run.Along (KeyStore.step options) ChecksAlone s as t) : StoreOk options t ∧ NextOk t := by
  refine hrun.induct (P := fun u ↦ StoreOk options u ∧ NextOk u) (fun u a v hu hC hstep ↦ ?_)
    ⟨hs, hnext⟩
  exact ⟨hu.1.step (keyStep_cases hstep), hu.2.step hu.1 (keyStep_cases hstep) hC⟩

theorem nextOk_of_initial (hs : (KeyStore.system options).initial s) : NextOk s := by
  obtain ⟨hrows, htxs⟩ := hs
  have hnone : ∀ i, s.openTx i = none := fun i ↦ by
    rw [KeyStore.openTx, htxs]
    rfl
  have hwork : ∀ i w, ¬ s.HasWork i w := by
    rintro i w ⟨tx, hget, -⟩
    rw [hnone i] at hget
    cases hget
  refine ⟨fun r hr ↦ ?_, fun i w hw ↦ (hwork i w hw).elim,
    fun i j w w' _ hw ↦ (hwork i w hw).elim, fun i tx hget ↦ ?_⟩
  · simp [hrows] at hr
  · simp [hnone i] at hget

/-- In every run whose checks are made alone, a realm, purpose, scope and algorithm has at most one
active key and at most one that waits, a key's status only moves on, a key that waited becomes active
once it was shown for the prepublish window, and a scope with a key that has waited so long can be
rotated. -/
theorem keys_rotate_of_checksAlone (options : KeyFactoryOptions) (s t : KeyStore)
    (as : List KeyAction) (hs : (KeyStore.system options).initial s)
    (hrun : Run.Along (KeyStore.step options) ChecksAlone s as t) :
    (∀ r ∈ t.rows, ∀ r' ∈ t.rows, r.status = .active ∨ r.status = .next → r'.status = r.status →
      r'.slot = r.slot → r' = r) ∧
    (∀ bs u, Run.Along (KeyStore.step options) ChecksAlone t bs u →
      ∀ r ∈ t.rows, ∀ r' ∈ u.rows, r'.key = r.key →
        Relation.ReflTransGen StatusMove r.status r'.status ∧
          (r.status = .next → r'.status ≠ .next →
            ∃ n ∈ r'.activateAt, r.shownAt + options.prepublishMs ≤ n ∧ n ≤ u.now)) ∧
    ∀ row ∈ t.rows, ∀ scopeId, row.scopeId = some scopeId → row.status = .next →
      row.shownAt + options.prepublishMs ≤ t.now → Rotates options t row scopeId := by
  obtain ⟨hok, hnext⟩ := nextOk_of_along ((storeOk_invariant options).initial s hs)
    (nextOk_of_initial hs) hrun
  refine ⟨fun r hr r' hr' hstatus hsame hslot ↦ ?_, fun bs u hlater r hr r' hr' hkey ↦ ?_,
    fun row hr scopeId hscope hwaits hshown ↦ ?_⟩
  · refine Table.eq_of_key_eq hok.nodup hr' hr ?_
    rcases hstatus with hstatus | hstatus
    · exact hok.one r' hr' r hr (hsame.trans hstatus) hstatus hslot
    · exact hnext.one r' hr' r hr (hsame.trans hstatus) hstatus hslot
  · obtain ⟨hok', -⟩ := nextOk_of_along hok hnext hlater
    have hmoved := later_of_run hlater.toRun hok hr hr' hkey
    refine ⟨hmoved.moved, fun hwaits hleft ↦ ?_⟩
    obtain ⟨n, hn, hle⟩ := hmoved.activated hwaits hleft
    exact ⟨n, hn, hle, (hok'.rows r' hr').activated n hn⟩
  · exact rotates_of_oneOf hok hnext.one hr hwaits hscope hshown

/-! ### Sample runs -/

/-- One scope, whose keys wait ten milliseconds. -/
def sampleOptions : KeyFactoryOptions := ⟨[.EdDSA], false, false, 10, 20⟩

def sampleRealm : String := "00000000-0000-0000-0000-000000000001"

/-- A webhook key of a kid, in the status asked for, by its first statements. -/
def sampleCreation (i : ℕ) (kid : String) (status : NewKeyStatus) (n : ℕ) : List KeyAction :=
  .call i (.createKey ⟨sampleRealm, .webhook_signing, some "endpoint", none, some status⟩) ::
    List.replicate n (.proceed i ⟨kid, ⟨kid, none, []⟩, some "kek"⟩)

def sampleEnd (i : ℕ) : List KeyAction := [.finish i, .commit i]

def emptyKeyStore : KeyStore := ⟨[], [], 0, []⟩

/-- An active key and then one that waits. -/
def sampleRun : List KeyAction :=
  [.begin] ++ sampleCreation 0 "a" .active 6 ++ sampleEnd 0 ++
    [.begin] ++ sampleCreation 1 "b" .next 6 ++ sampleEnd 1 ++ List.replicate 10 .tick

/-- Two creations that both check before either stores. -/
def conflictingRun : List KeyAction :=
  [.begin, .begin] ++ sampleCreation 0 "a" .next 5 ++ sampleCreation 1 "b" .next 5 ++
    [.proceed 0 ⟨"", ⟨"", none, []⟩, none⟩] ++ sampleEnd 0 ++
    [.proceed 1 ⟨"", ⟨"", none, []⟩, none⟩] ++ sampleEnd 1 ++ List.replicate 10 .tick

/-- Whether a key waits and was shown for the prepublish window. -/
def isWaiting (options : KeyFactoryOptions) (s : KeyStore) (kid : String) (row : RealmKey) : Bool :=
  row.kid = kid && row.status = .next && row.scopeId = some "endpoint" &&
    row.shownAt + options.prepublishMs ≤ s.now

/-- What a transaction's running call throws. -/
def KeyTx.thrown (tx : KeyTx) : Option KeyError :=
  match tx.running with
  | some (.done (.error e)) => some e
  | _ => none

theorem keys_rotate_sampleRun :
    ∃ t, Run.Along (KeyStore.step sampleOptions) ChecksAlone emptyKeyStore sampleRun t ∧
      ∃ row ∈ t.rows, row.status = .next ∧ Rotates sampleOptions t row "endpoint" := by
  have hexec : (exec (fun s a ↦ if ChecksAlone s a then KeyStore.step sampleOptions s a else none)
      emptyKeyStore sampleRun).any fun t ↦ t.rows.any (isWaiting sampleOptions t "b") := by
    decide
  obtain ⟨t, ht, hany⟩ := (Option.any_eq_true _ _).mp hexec
  obtain ⟨row, hr, hwaits⟩ := List.any_eq_true.mp hany
  simp only [isWaiting, Bool.and_eq_true, decide_eq_true_eq] at hwaits
  have hrun := Run.Along.of_exec ht
  exact ⟨t, hrun, row, hr, hwaits.1.1.2,
    (keys_rotate_of_checksAlone sampleOptions emptyKeyStore t sampleRun ⟨rfl, rfl⟩ hrun).2.2 row hr
      "endpoint" hwaits.1.2 hwaits.1.1.2 hwaits.2⟩

/-- Two creations that check together store two keys that wait, and no rotation finds the one key it
looks for. -/
theorem two_keys_wait :
    ∃ t, Run (KeyStore.step sampleOptions) emptyKeyStore conflictingRun t ∧
      (t.rows.any fun r ↦ t.rows.any fun r' ↦ isWaiting sampleOptions t "a" r &&
        isWaiting sampleOptions t "b" r' && r.slot = r'.slot) = true ∧
      ∃ u, Run (KeyStore.step sampleOptions) t
        [.begin, .call 2 (.activateNextKey ⟨sampleRealm, .webhook_signing, "endpoint"⟩ none),
          .proceed 2 ⟨"", ⟨"", none, []⟩, none⟩] u ∧
        (u.openTx 2).bind KeyTx.thrown = some (.KeyChangeRefusedError .NO_NEXT_KEY
          "The scope holds no next 'HS256' key for purpose 'webhook_signing'" none) := by
  have hexec : (exec (KeyStore.step sampleOptions) emptyKeyStore conflictingRun).any fun t ↦
      (t.rows.any fun r ↦ t.rows.any fun r' ↦ isWaiting sampleOptions t "a" r &&
        isWaiting sampleOptions t "b" r' && r.slot = r'.slot) &&
      (exec (KeyStore.step sampleOptions) t
        [.begin, .call 2 (.activateNextKey ⟨sampleRealm, .webhook_signing, "endpoint"⟩ none),
          .proceed 2 ⟨"", ⟨"", none, []⟩, none⟩]).any fun u ↦
        (u.openTx 2).bind KeyTx.thrown = some (.KeyChangeRefusedError .NO_NEXT_KEY
          "The scope holds no next 'HS256' key for purpose 'webhook_signing'" none) := by
    decide
  obtain ⟨t, ht, hany⟩ := (Option.any_eq_true _ _).mp hexec
  obtain ⟨hwait, hthrown⟩ := (Bool.and_eq_true _ _).mp hany
  obtain ⟨u, hu, hthrown⟩ := (Option.any_eq_true _ _).mp hthrown
  exact ⟨t, Run.of_exec ht, hwait, u, Run.of_exec hu, of_decide_eq_true hthrown⟩

end QAuth.Keys
