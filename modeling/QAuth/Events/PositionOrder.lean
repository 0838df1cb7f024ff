import QAuth.Events.Following

/-!
# The order of positions

A position that is read back is the position that was written, and two positions of one realm
compare as their places in the stream do. That is the order in which a page has its events, so a
reader that keeps the position of the last event it has neither skips an event nor gets one twice.
-/

namespace QAuth.Events

open Guards Transition

variable {a b c parts parts' : EventPositionParts} {position : EventPosition} {i j : ℤ}

/-- Two places of one realm are equal only if the positions are. -/
theorem EventPositionParts.eq_iff (h : a.realmId = b.realmId) : a = b ↔ a.place = b.place := by
  constructor
  · rintro rfl
    rfl
  · intro hplace
    have hxid : a.xid = b.xid := congrArg Position.xid hplace
    have hseq : a.seq = b.seq := congrArg Position.seq hplace
    obtain ⟨realmId, xid, seq⟩ := a
    obtain ⟨realmId', xid', seq'⟩ := b
    simp only at h hxid hseq
    rw [h, hxid, hseq]

/-- The order is that of places in the stream of one realm. -/
theorem compareEventPositions_eq_ok_iff : compareEventPositions a b = .ok i ↔
    a.realmId = b.realmId ∧ (a.place < b.place ∧ i = -1 ∨ a.place = b.place ∧ i = 0 ∨
      b.place < a.place ∧ i = 1) := by
  by_cases hrealm : a.realmId = b.realmId
  · rw [compareEventPositions_of_eq hrealm]
    simp only [hrealm, true_and, Position.lt_iff, Position.ext_iff, EventPositionParts.place]
    split_ifs <;> simp only [Except.ok.injEq] <;> omega
  · have hthrows : ∀ i, compareEventPositions a b ≠ .ok i := by
      intro i h
      rw [compareEventPositions, refuseIf, if_pos hrealm] at h
      cases h
    exact ⟨fun h ↦ absurd h (hthrows i), fun h ↦ absurd h.1 hrealm⟩

/-- Two positions have an order exactly when they are of one realm. -/
theorem exists_compareEventPositions :
    (∃ i, compareEventPositions a b = .ok i) ↔ a.realmId = b.realmId := by
  constructor
  · rintro ⟨i, hi⟩
    exact (compareEventPositions_eq_ok_iff.1 hi).1
  · intro hrealm
    obtain ⟨i, hi, -⟩ := compareEventPositions_pos_iff hrealm
    exact ⟨i, hi⟩

/-- The other way round, the order is the opposite. -/
theorem compareEventPositions_swap (h : compareEventPositions a b = .ok i) :
    compareEventPositions b a = .ok (-i) := by
  obtain ⟨hrealm, hcases⟩ := compareEventPositions_eq_ok_iff.1 h
  rw [compareEventPositions_eq_ok_iff]
  rcases hcases with ⟨hlt, rfl⟩ | ⟨heq, rfl⟩ | ⟨hlt, rfl⟩
  · exact ⟨hrealm.symm, .inr (.inr ⟨hlt, rfl⟩)⟩
  · exact ⟨hrealm.symm, .inr (.inl ⟨heq.symm, rfl⟩)⟩
  · exact ⟨hrealm.symm, .inl ⟨hlt, rfl⟩⟩

theorem compareEventPositions_nonpos_iff (h : compareEventPositions a b = .ok i) :
    i ≤ 0 ↔ a.place ≤ b.place := by
  obtain ⟨-, hcases⟩ := compareEventPositions_eq_ok_iff.1 h
  rcases hcases with ⟨hlt, rfl⟩ | ⟨heq, rfl⟩ | ⟨hlt, rfl⟩
  · exact ⟨fun _ ↦ hlt.le, fun _ ↦ by omega⟩
  · exact ⟨fun _ ↦ heq.le, fun _ ↦ le_rfl⟩
  · exact ⟨fun h ↦ by omega, fun hle ↦ absurd hlt (not_lt.mpr hle)⟩

theorem compareEventPositions_trans (hab : compareEventPositions a b = .ok i)
    (hbc : compareEventPositions b c = .ok j) (hi : i ≤ 0) (hj : j ≤ 0) :
    ∃ k, compareEventPositions a c = .ok k ∧ k ≤ 0 := by
  have hrealm : a.realmId = c.realmId :=
    (compareEventPositions_eq_ok_iff.1 hab).1.trans (compareEventPositions_eq_ok_iff.1 hbc).1
  have hle : a.place ≤ c.place :=
    ((compareEventPositions_nonpos_iff hab).mp hi).trans
      ((compareEventPositions_nonpos_iff hbc).mp hj)
  obtain ⟨k, hk, -⟩ := compareEventPositions_pos_iff hrealm
  exact ⟨k, hk, (compareEventPositions_nonpos_iff hk).mpr hle⟩

/-! ### The order of a page -/

/-- The positions that two texts hold compare as negative. -/
def ComesBefore (position position' : EventPosition) : Prop :=
  ∃ a b, decodeEventPosition position = .ok a ∧ decodeEventPosition position' = .ok b ∧
    compareEventPositions a b = .ok (-1)

theorem readAfter_comesBefore {log : EventLog} {realmId : List Char} {limit : ℤ}
    {filters : EventReadFilters} {answer : EventPage} (hlog : log.Stored)
    (h : readAfter log realmId position limit filters = .ok answer) :
    (∀ e ∈ answer.events, ComesBefore position e.position) ∧
      answer.events.Pairwise fun e e' ↦ ComesBefore e.position e'.position := by
  obtain ⟨realm, start, hrealm, hstart, hsame, -, hevents, -⟩ := readAfter_spec h
  have hread : PageRead log (matching realm filters.wants) start.place limit.toNat log.horizon _ :=
    pageRead_page
  have hrealmOf : ∀ row ∈ page log (matching realm filters.wants) start.place limit.toNat,
      (partsOf row).realmId = realm := by
    intro row hrow
    rw [partsOf, text_of_matching hrealm (hread.sound row hrow).2.1]
  constructor
  · intro stored hstored
    obtain ⟨row, hrow, hto⟩ := exists_of_mem_mapM hevents hstored
    have hlt : start.place < (partsOf row).place := (hread.sound row hrow).2.2.1
    exact ⟨start, partsOf row, hstart, toStoredEvent_position hto,
      compareEventPositions_eq_ok_iff.2 ⟨hsame.trans (hrealmOf row hrow).symm, .inl ⟨hlt, rfl⟩⟩⟩
  · refine pairwise_of_mapM hevents (Reading.pairwise_page hlog)
      fun row hrow row' hrow' hlt y y' hy hy' ↦ ?_
    have hplaces : (partsOf row).place < (partsOf row').place := hlt
    exact ⟨partsOf row, partsOf row', toStoredEvent_position hy, toStoredEvent_position hy',
      compareEventPositions_eq_ok_iff.2
        ⟨(hrealmOf row hrow).trans (hrealmOf row' hrow').symm, .inl ⟨hplaces, rfl⟩⟩⟩

/-- A text is read as a position exactly when it is what is written for one in range, and two
positions in range have two texts. Positions of one realm, and of no other, have an order: it is
total and the opposite the other way round, only equal positions are level in it, and it is the
order of the transaction id and then the sequence. Whatever the writers did, a read answers the
events after the position it is given in that order. -/
theorem positions_follow_the_stream :
    (∀ position parts, decodeEventPosition position = .ok parts ↔
      parts.InRange ∧ encodeEventPosition parts = .ok position) ∧
    (∀ parts, parts.InRange ↔ ∃ position, encodeEventPosition parts = .ok position) ∧
    (∀ parts parts' position, encodeEventPosition parts = .ok position →
      encodeEventPosition parts' = .ok position → parts = parts') ∧
    (∀ a b, (∃ i, compareEventPositions a b = .ok i) ↔ a.realmId = b.realmId) ∧
    (∀ a b i, compareEventPositions a b = .ok i →
      (i < 0 ↔ a.xid < b.xid ∨ a.xid = b.xid ∧ a.seq < b.seq) ∧ (i = 0 ↔ a = b) ∧
      compareEventPositions b a = .ok (-i)) ∧
    (∀ a b c i j, compareEventPositions a b = .ok i → compareEventPositions b c = .ok j →
      i ≤ 0 → j ≤ 0 → ∃ k, compareEventPositions a c = .ok k ∧ k ≤ 0) ∧
    ∀ (as : List EventLog.WriterAction) (log : EventLog) (realmId : List Char)
      (position : EventPosition) (limit : ℤ) (filters : EventReadFilters) (answer : EventPage),
      Run EventLog.step .empty as log →
      readAfter log realmId position limit filters = .ok answer →
      (∀ e ∈ answer.events, ComesBefore position e.position) ∧
        answer.events.Pairwise fun e e' ↦ ComesBefore e.position e'.position := by
  refine ⟨fun position parts ↦ ?_, fun parts ↦ ?_, fun parts parts' position h h' ↦ ?_,
    fun a b ↦ exists_compareEventPositions, fun a b i h ↦ ?_,
    fun a b c i j ↦ compareEventPositions_trans,
    fun as log realmId position limit filters answer hrun ↦ ?_⟩
  · rw [decodeEventPosition_eq_ok_iff]
    exact ⟨fun h ↦ ⟨(encodeEventPosition_eq_ok_iff.mp h).1, h⟩, fun h ↦ h.2⟩
  · constructor
    · intro hrange
      exact ⟨_, encodeEventPosition_eq_ok_iff.mpr ⟨hrange, rfl⟩⟩
    · rintro ⟨position, h⟩
      exact (encodeEventPosition_eq_ok_iff.mp h).1
  · have hdecode := decodeEventPosition_eq_ok_iff.mpr h
    rw [decodeEventPosition_eq_ok_iff.mpr h'] at hdecode
    exact (Except.ok.inj hdecode).symm
  · refine ⟨?_, ?_, compareEventPositions_swap h⟩
    · obtain ⟨-, hcases⟩ := compareEventPositions_eq_ok_iff.mp h
      simp only [Position.lt_iff, Position.ext_iff, EventPositionParts.place] at hcases
      omega
    · obtain ⟨hrealm, hcases⟩ := compareEventPositions_eq_ok_iff.mp h
      rw [EventPositionParts.eq_iff hrealm]
      simp only [Position.lt_iff, Position.ext_iff, EventPositionParts.place] at hcases ⊢
      omega
  · have hlog : log.Stored := by
      refine hrun.induct (fun log a log' hstored hstep ↦ hstored.step hstep) EventLog.stored_empty
    exact readAfter_comesBefore hlog

end QAuth.Events
