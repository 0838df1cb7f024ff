import QAuth.Events.Store
import QAuth.Foundation.Table

/-!
# Pages of the event stream

A reader asks for the committed events after its place that it wants, below the horizon of its
snapshot and at most so many. It goes on from the last event of a full page, and from the horizon
after a short one. No writer can commit an event up to there any more, so the events of a page are
for good all that were to be read up to where it ends.
-/

namespace QAuth.Events

variable {log log' : EventLog} {wanted : Event → Bool} {start : Position} {limit horizon : ℕ}
  {events : List Event}

/-- The committed events that a snapshot's reader may take and wants. -/
def offered (log : EventLog) (wanted : Event → Bool) (start : Position) : List Event :=
  log.events.filter fun e ↦ wanted e && start < e.position && e.xid < log.horizon

def page (log : EventLog) (wanted : Event → Bool) (start : Position) (limit : ℕ) : List Event :=
  (Table.orderBy (·.position) (offered log wanted start)).take limit

/-- Where a page ends: at its last event when it is full, at the horizon when it holds every event
below it, and never before it starts. -/
def pageEnd (start : Position) (limit horizon : ℕ) (events : List Event) : Position :=
  if events.length = limit then events.getLast?.elim start Event.position
  else if start.xid < horizon then .atHorizon horizon
  else start

/-- What makes the events of a page the right ones. -/
structure PageRead (log : EventLog) (wanted : Event → Bool) (start : Position)
    (limit horizon : ℕ) (events : List Event) : Prop where
  sound : ∀ e ∈ events,
    e ∈ log.events ∧ wanted e = true ∧ start < e.position ∧ e.xid < horizon
  complete : ∀ e ∈ log.events, wanted e = true → start < e.position →
    e.position ≤ pageEnd start limit horizon events → e ∈ events
  ordered : events.Pairwise fun e e' ↦ e.position ≤ e'.position

theorem mem_offered {e : Event} : e ∈ offered log wanted start ↔
    e ∈ log.events ∧ wanted e = true ∧ start < e.position ∧ e.xid < log.horizon := by
  simp only [offered, List.mem_filter, Bool.and_eq_true, decide_eq_true_eq, and_assoc]

namespace PageRead

theorem pageEnd_cases (h : PageRead log wanted start limit horizon events) (hpos : 1 ≤ limit) :
    (events.length = limit ∧ ∃ last ∈ events, (∀ e ∈ events, e.position ≤ last.position) ∧
      pageEnd start limit horizon events = last.position) ∨
    (events.length ≠ limit ∧ pageEnd start limit horizon events =
      if start.xid < horizon then .atHorizon horizon else start) := by
  unfold pageEnd
  by_cases hfull : events.length = limit
  · refine .inl ⟨hfull, ?_⟩
    have hne : events ≠ [] := by
      rintro rfl
      simp only [List.length_nil] at hfull
      omega
    refine ⟨events.getLast hne, List.getLast_mem hne, fun e he ↦ ?_, ?_⟩
    · have hsplit := List.dropLast_append_getLast hne
      have hordered := h.ordered
      rw [← hsplit] at he hordered
      rcases List.mem_append.mp he with he | he
      · exact (List.pairwise_append.mp hordered).2.2 e he _ (List.mem_singleton_self _)
      · rw [List.mem_singleton.mp he]
    · rw [if_pos hfull, List.getLast?_eq_some_getLast hne, Option.elim_some]
  · exact .inr ⟨hfull, by rw [if_neg hfull]⟩

/-- A page never ends before it starts. -/
theorem le_pageEnd (h : PageRead log wanted start limit horizon events) (hpos : 1 ≤ limit) :
    start ≤ pageEnd start limit horizon events := by
  rcases h.pageEnd_cases hpos with ⟨-, last, hmem, -, heq⟩ | ⟨-, heq⟩
  · rw [heq]
    exact (h.sound last hmem).2.2.1.le
  · rw [heq]
    split
    · exact Position.le_atHorizon_of_xid_lt ‹_›
    · exact le_rfl

/-- A page ends at or before the horizon of its snapshot, unless it ends where it starts. -/
theorem pageEnd_le_or_eq (h : PageRead log wanted start limit horizon events) (hpos : 1 ≤ limit) :
    pageEnd start limit horizon events ≤ .atHorizon horizon ∨
      pageEnd start limit horizon events = start := by
  rcases h.pageEnd_cases hpos with ⟨-, last, hmem, -, heq⟩ | ⟨-, heq⟩
  · have hlt := (h.sound last hmem).2.2.2
    exact .inl (heq ▸ Position.le_atHorizon_of_xid_lt hlt)
  · rw [heq]
    split
    · exact .inl le_rfl
    · exact .inr rfl

theorem pageEnd_le (h : PageRead log wanted start limit horizon events) (hpos : 1 ≤ limit)
    {bound : ℕ} (hstart : start ≤ .atHorizon bound) (hbound : horizon ≤ bound) :
    pageEnd start limit horizon events ≤ .atHorizon bound := by
  rcases h.pageEnd_le_or_eq hpos with hle | heq
  · exact hle.trans (Position.atHorizon_le_atHorizon hbound)
  · rw [heq]
    exact hstart

theorem mem_iff (h : PageRead log wanted start limit horizon events) (hpos : 1 ≤ limit)
    {e : Event} : e ∈ events ↔ e ∈ log.events ∧ wanted e = true ∧ start < e.position ∧
      e.position ≤ pageEnd start limit horizon events := by
  refine ⟨fun he ↦ ?_, fun ⟨hmem, hwanted, hlt, hle⟩ ↦ h.complete e hmem hwanted hlt hle⟩
  obtain ⟨hmem, hwanted, hlt, hxid⟩ := h.sound e he
  refine ⟨hmem, hwanted, hlt, ?_⟩
  rcases h.pageEnd_cases hpos with ⟨-, last, -, hlast, heq⟩ | ⟨-, heq⟩
  · rw [heq]
    exact hlast e he
  · have hstart : start.xid < horizon := by
      simp only [Position.lt_iff, Event.position_xid] at hlt
      omega
    rw [heq, if_pos hstart]
    exact Position.le_atHorizon_of_xid_lt hxid

/-- Writers cannot add an event up to where a page ends. -/
theorem «extends» (h : PageRead log wanted start limit horizon events) (hpos : 1 ≤ limit)
    (hstart : start ≤ .atHorizon log.horizon) (hhorizon : horizon ≤ log.horizon)
    (hext : log.Extends log') : PageRead log' wanted start limit horizon events where
  sound e he := ⟨hext.subset (h.sound e he).1, (h.sound e he).2⟩
  complete e he hwanted hlt hle := by
    rcases hext.mem_or_lt he (h.pageEnd_le hpos hstart hhorizon) with hold | hnew
    · exact h.complete e hold hwanted hlt hle
    · exact absurd hle (not_le.mpr hnew)
  ordered := h.ordered

end PageRead

theorem pageRead_page :
    PageRead log wanted start limit log.horizon (page log wanted start limit) := by
  have hsound : ∀ e ∈ page log wanted start limit, e ∈ log.events ∧
      wanted e = true ∧ start < e.position ∧ e.xid < log.horizon := fun e he ↦
    mem_offered.mp (Table.mem_orderBy.mp (List.mem_of_mem_take he))
  have hlength : (page log wanted start limit).length ≤ limit := List.length_take_le _ _
  refine ⟨hsound, fun e he hwanted hlt hle ↦ ?_, Table.pairwise_orderBy.sublist
    (List.take_sublist _ _)⟩
  have hoffered : e.xid < log.horizon → e ∈ offered log wanted start :=
    fun hxid ↦ mem_offered.mpr ⟨he, hwanted, hlt, hxid⟩
  unfold pageEnd at hle
  by_cases hfull : (page log wanted start limit).length = limit
  · rw [if_pos hfull] at hle
    cases hlast : (page log wanted start limit).getLast? with
    | none =>
      rw [hlast, Option.elim_none] at hle
      exact absurd hlt (not_lt.mpr hle)
    | some last =>
      rw [hlast, Option.elim_some] at hle
      have hmem := List.mem_of_getLast? hlast
      have hxid : e.xid < log.horizon := by
        have := (hsound last hmem).2.2.2
        simp only [Position.le_iff, Event.position_xid] at hle
        omega
      by_contra hout
      have hge : last.position ≤ e.position :=
        Table.le_of_mem_take_orderBy hmem (hoffered hxid) hout
      rw [log.eq_of_position_eq he (hsound last hmem).1 (le_antisymm hle hge)] at hout
      exact hout hmem
  · rw [if_neg hfull] at hle
    split at hle
    · have hseq := log.seq_pos_of_committed he
      have hxid : e.xid < log.horizon := by
        simp only [Position.le_iff, Event.position_xid, Event.position_seq,
          Position.atHorizon_xid, Position.atHorizon_seq] at hle
        omega
      exact Table.mem_take_orderBy_of_short (hoffered hxid)
        (lt_of_le_of_ne hlength hfull)
    · exact absurd hlt (not_lt.mpr hle)

end QAuth.Events
