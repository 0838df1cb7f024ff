import QAuth.Egress.PoolInvariant

/-!
# Runs of the pool

Between two events the books of the pool agree and no call waits that may start (`Settled`). Every
event keeps this, in whatever order the events come; whichever frees a slot or a place drains the
queue before it is over.
-/

namespace QAuth.Egress

variable {limits : ProcessPoolLimits} {inHand : List Call} {s s' s'' : Pool}

/-! ### Room -/

/-- The same calls wait, and none may start that could not start before. -/
structure Narrows (limits : ProcessPoolLimits) (s s' : Pool) : Prop where
  waiting : s'.waiting = s.waiting
  closed : s'.closed = s.closed
  canStart : ∀ family, canStart limits family s' = true → canStart limits family s = true

theorem Narrows.trans (h : Narrows limits s s') (h' : Narrows limits s' s'') :
    Narrows limits s s'' where
  waiting := h'.waiting.trans h.waiting
  closed := h'.closed.trans h.closed
  canStart := fun family hstart ↦ h.canStart family (h'.canStart family hstart)

/-- Fewer idle processes, more processes and more slots that are held leave no more room. -/
theorem canStart_of_le (hheld : ∀ family, s.held family ≤ s'.held family)
    (hidle : s'.idle ≠ [] → s.idle ≠ []) (hsize : s.processes.length ≤ s'.processes.length)
    (family : JsString) (h : canStart limits family s' = true) :
    canStart limits family s = true := by
  simp only [canStart, Bool.and_eq_true, Bool.or_eq_true, decide_eq_true_eq,
    List.length_pos_iff] at h ⊢
  refine ⟨(hheld family).trans_lt h.1, h.2.imp hidle fun hlt ↦ hsize.trans_lt hlt⟩

theorem Confined.narrows (h : Confined s s') : Narrows limits s s' where
  waiting := h.waiting
  closed := h.closed
  canStart := by
    refine canStart_of_le (fun f ↦ by rw [h.held]) (fun hidle ↦ ?_) (by rw [h.processes])
    obtain ⟨p, hp⟩ := List.exists_mem_of_ne_nil _ hidle
    exact List.ne_nil_of_mem (h.idle p hp)

theorem Narrows.spawnProcess (launch : Launch) (s : Pool) :
    Narrows limits s (Egress.spawnProcess launch s) := by
  refine Narrows.trans ?_ (Confined.send ..).narrows
  exact ⟨rfl, rfl, canStart_of_le (fun _ ↦ le_rfl) (fun h ↦ h) (by simp)⟩

theorem le_bump (counts : JsString → ℕ) (key : JsString) (family : JsString) :
    counts family ≤ bump counts key 1 family := by
  rw [bump]
  by_cases h : family = key
  · subst h
    simp
  · rw [Function.update_of_ne h]

theorem Narrows.startOn (launch : Launch) (call : Call) (p : ℕ) (s : Pool) :
    Narrows limits s (Egress.startOn launch call p s) := by
  rw [Egress.startOn]
  refine Narrows.trans ?_ (Confined.send ..).narrows
  have hidle : s.idle.erase p ≠ [] → s.idle ≠ [] := by
    rintro h hnil
    simp [hnil] at h
  split_ifs
  all_goals exact ⟨rfl, rfl, canStart_of_le (fun f ↦ le_bump ..) hidle le_rfl⟩

theorem Narrows.start (launch : Launch) (call : Call) (s : Pool) :
    Narrows limits s (Egress.start launch call s) := by
  rw [Egress.start]
  cases hlast : s.idle.getLast? with
  | some p =>
    have hidle : s.idle ≠ [] := List.ne_nil_of_mem (List.mem_of_getLast? hlast)
    refine Narrows.trans ?_ (Narrows.startOn ..)
    exact ⟨rfl, rfl, canStart_of_le (fun _ ↦ le_rfl) (fun _ ↦ hidle) le_rfl⟩
  | none =>
    dsimp only
    split_ifs
    · exact (Narrows.spawnProcess launch s).trans (Narrows.startOn ..)
    · exact (Confined.settle ..).narrows

def Quiet (limits : ProcessPoolLimits) (s : Pool) : Prop :=
  ∀ call ∈ s.waiting, canStart limits call.family s = false

theorem Narrows.not_canStart (h : Narrows limits s s') {family : JsString}
    (hnot : Egress.canStart limits family s = false) :
    Egress.canStart limits family s' = false := by
  rw [← Bool.not_eq_true] at hnot ⊢
  exact fun hstart ↦ hnot (h.canStart family hstart)

theorem Narrows.quiet (h : Narrows limits s s') (hquiet : Quiet limits s) : Quiet limits s' := by
  intro call hcall
  rw [h.waiting] at hcall
  exact h.not_canStart (hquiet call hcall)

/-! ### Draining -/

/-- What holds between two events. -/
structure Settled (limits : ProcessPoolLimits) (s : Pool) : Prop where
  kept : Kept limits [] s
  quiet : Quiet limits s

namespace Kept

/-- From a place in the queue on, each call that may start is started. -/
theorem drainFrom (launch : Call → Launch) {passed rest : List Call} (H : Kept limits [] s)
    (hwaiting : s.waiting = passed ++ rest)
    (hpassed : ∀ call ∈ passed, canStart limits call.family s = false) :
    Settled limits (Egress.drainFrom limits launch passed rest s) := by
  induction rest generalizing passed s with
  | nil =>
    rw [List.append_nil] at hwaiting
    exact ⟨H, fun call hcall ↦ hpassed call (hwaiting ▸ hcall)⟩
  | cons call rest ih =>
    have hmem : call ∈ s.waiting := by simp [hwaiting]
    have hopen : s.closed = false := by
      by_contra hclosed
      rw [H.closed (by simpa using hclosed)] at hmem
      simp at hmem
    have hcond : (s.closed || !canStart limits call.family s) =
        !canStart limits call.family s := by rw [hopen, Bool.false_or]
    rw [Egress.drainFrom, hcond]
    by_cases hstart : canStart limits call.family s = true
    · rw [hstart, if_neg (by decide)]
      have hlive := H.live _ ((H.waits call).mp hmem)
      have hnarrows : Narrows limits (removeListener (.onWaitAbort call)
          { s with
            waiting := passed ++ rest
            waitingByFamily := bump s.waitingByFamily call.family (-1) }) _ :=
        Narrows.start (launch call) call _
      exact ih ((H.dequeue hwaiting).start hstart hlive (launch call)) hnarrows.waiting
        fun c hc ↦ hnarrows.not_canStart (hpassed c hc)
    · rw [Bool.not_eq_true] at hstart
      rw [hstart, Bool.not_false, if_pos rfl]
      refine ih H (by rw [hwaiting, List.append_assoc, List.singleton_append]) fun c hc ↦ ?_
      rcases List.mem_append.mp hc with hc | hc
      · exact hpassed c hc
      · rw [List.mem_singleton.mp hc]
        exact hstart

/-- After `drain` no call waits that may start. -/
theorem drain (H : Kept limits [] s) (launch : Call → Launch) :
    Settled limits (Egress.drain limits launch s) :=
  H.drainFrom launch rfl (by simp)

end Kept

namespace Settled

theorem modify (H : Settled limits s) (p : ℕ) {f : FetchProcess → FetchProcess}
    (hcall : ∀ proc, (f proc).call = proc.call) (hfamily : ∀ proc, (f proc).family = proc.family)
    (hending : ∀ proc, proc.ending = true → (f proc).ending = true) :
    Settled limits (Egress.modify p f s) :=
  ⟨H.kept.modify p hcall hfamily hending, H.quiet⟩

theorem kill (H : Settled limits s) (p : ℕ) (outcome : Option ExchangeOutcome) (atDeadline : Bool) :
    Settled limits (Egress.kill p outcome atDeadline s) :=
  ⟨H.kept.kill .., (Confined.kill ..).narrows.quiet H.quiet⟩

theorem unreachable (H : Settled limits s) (p : ℕ) : Settled limits (Egress.unreachable p s) :=
  ⟨H.kept.unreachable p, (Confined.unreachable ..).narrows.quiet H.quiet⟩

theorem refuse (H : Settled limits s) (p : ℕ) (what : String) :
    Settled limits (Egress.refuse p what s) :=
  ⟨H.kept.refuse .., (Confined.refuse ..).narrows.quiet H.quiet⟩

end Settled

/-! ### A process gives back what it has -/

theorem endCall_of_none {p : ℕ} (outcome : ExchangeOutcome) (h : (s.proc p).call = none) :
    endCall p outcome s = s := by
  simp only [endCall, h]

theorem endCall_self (p : ℕ) (outcome : ExchangeOutcome) (s : Pool) :
    ((endCall p outcome s).proc p).call = none ∧
      ((endCall p outcome s).proc p).ending = (s.proc p).ending ∧
      (endCall p outcome s).idle = s.idle ∧ (endCall p outcome s).processes = s.processes := by
  rw [endCall]
  cases hcall : (s.proc p).call with
  | none => exact ⟨hcall, rfl, rfl, rfl⟩
  | some call =>
    simp only [settle]
    split_ifs <;> simp

/-- What is left of a call and of a slot when both are given back. -/
theorem releaseFamily_endCall (p : ℕ) (outcome : ExchangeOutcome) (s : Pool) :
    ((releaseFamily p (endCall p outcome s)).proc p).call = none ∧
      ((releaseFamily p (endCall p outcome s)).proc p).family = none ∧
      ((releaseFamily p (endCall p outcome s)).proc p).ending = (s.proc p).ending ∧
      (releaseFamily p (endCall p outcome s)).idle = s.idle ∧
      (releaseFamily p (endCall p outcome s)).processes = s.processes := by
  have hend := endCall_self p outcome s
  generalize endCall p outcome s = t at hend ⊢
  rw [releaseFamily]
  cases hfamily : (t.proc p).family with
  | none => exact ⟨hend.1, hfamily, hend.2⟩
  | some family => simpa using hend

/-- Ending a call does not look at which processes are live. -/
theorem endCall_processes (p : ℕ) (outcome : ExchangeOutcome) (processes : List ℕ) (s : Pool) :
    endCall p outcome { s with processes := processes } =
      { endCall p outcome s with processes := processes } := by
  simp only [endCall]
  cases (s.proc p).call with
  | none => rfl
  | some call =>
    simp only [settle, removeListener_answers, modify_answers]
    split_ifs <;> rfl

theorem releaseFamily_processes (p : ℕ) (processes : List ℕ) (s : Pool) :
    releaseFamily p { s with processes := processes } =
      { releaseFamily p s with processes := processes } := by
  simp only [releaseFamily]
  cases (s.proc p).family <;> rfl

theorem Kept.drop (H : Kept limits inHand s) {p : ℕ} (hfree : Free p s)
    (hending : (s.proc p).ending = true) :
    Kept limits inHand { s with processes := s.processes.erase p } := by
  have hmem : ∀ q, q ∈ s.processes.erase p ↔ q ≠ p ∧ q ∈ s.processes :=
    fun q ↦ H.nodup.mem_erase_iff
  have htally : ∀ P : FetchProcess → Bool, P (s.proc p) = false →
      tally P { s with processes := s.processes.erase p } = tally P s := by
    intro P hP
    have hperm := List.perm_cons_erase hfree.live
    have hcount := hperm.countP_eq fun q ↦ P (s.proc q)
    rw [List.countP_cons_of_neg (by simp [hP])] at hcount
    exact hcount.symm
  exact
    { H with
      nodup := H.nodup.erase p
      next := fun q hq ↦ H.next q ((hmem q).mp hq).2
      absent := fun q hq ↦ by
        by_cases hqp : q = p
        · subst hqp
          exact ⟨hending, hfree.call, hfree.family⟩
        · exact H.absent q fun h ↦ hq ((hmem q).mpr ⟨hqp, h⟩)
      size := (List.length_erase_le ..).trans H.size
      idle := fun q hq ↦ by
        have hqp : q ≠ p := fun h ↦ hfree.idle (h ▸ hq)
        obtain ⟨hlive, hrest⟩ := H.idle q hq
        exact ⟨(hmem q).mpr ⟨hqp, hlive⟩, hrest⟩
      held := fun family ↦ (H.held family).trans
        (htally (holds family) (by simp [holds, hfree.family])).symm
      balance := fun c ↦ (congrArg (fun n ↦ _ + n + _)
        (htally (runs c) (by simp [runs, hfree.call]))).trans (H.balance c) }

theorem Settled.onExit (H : Settled limits s) (launch : Call → Launch) (p : ℕ) :
    Settled limits (Egress.onExit limits launch p s) := by
  rw [Egress.onExit]
  split_ifs with hp
  · refine Kept.drain ?_ launch
    set t := leaveIdle p (Egress.modify p (fun proc ↦ { proc with ending := true }) s) with ht
    have hleft : Kept limits [] t := (H.kept.modify p
      (f := fun proc ↦ { proc with ending := true }) (fun _ ↦ rfl) (fun _ ↦ rfl)
      fun _ _ ↦ rfl).leaveIdle p
    have hnot : p ∉ t.idle := by
      rw [ht, leaveIdle]
      exact H.kept.idleNodup.not_mem_erase
    have hended : ∀ outcome, Kept limits []
        (releaseFamily p (endCall p outcome { t with processes := s.processes.erase p })) := by
      intro outcome
      -- the same operations, with the process dropped last
      have hlast : releaseFamily p (endCall p outcome { t with processes := s.processes.erase p }) =
          { releaseFamily p (endCall p outcome t) with processes := s.processes.erase p } := by
        rw [endCall_processes, releaseFamily_processes]
      obtain ⟨hcall, hfamily, hending, hidle, hprocesses⟩ := releaseFamily_endCall p outcome t
      have hdrop := ((hleft.endCall p outcome).releaseFamily p).drop
        ⟨by rw [hprocesses]; exact hp, hcall, hfamily, by rwa [hidle]⟩
        (by rw [hending, ht]; simp [leaveIdle])
      rw [hprocesses] at hdrop
      exact hlast ▸ hdrop
    split
    case h_1 hcall =>
      rw [callFailed, Option.map_eq_none_iff] at hcall
      have hnone := hended (.failed .network [])
      rw [endCall_of_none (s := { t with processes := s.processes.erase p }) _ hcall] at hnone
      exact hnone
    case h_2 outcome _ => exact hended outcome
  · exact H

/-! ### What a process sends -/

/-- A process that has ended its call goes idle. -/
theorem Kept.goIdle (H : Kept limits inHand s) {p : ℕ} (hfree : Free p s) :
    Kept limits inHand
      { Egress.modify p (fun proc ↦ { proc with idleTimer := true }) s with
        idle := s.idle ++ [p] } := by
  have H' := H.modify p (f := fun proc ↦ { proc with idleTimer := true }) (fun _ ↦ rfl)
    (fun _ ↦ rfl) fun _ h ↦ h
  exact
    { H' with
      idle := fun q hq ↦ by
        rcases List.mem_append.mp hq with hq | hq
        · exact H'.idle q hq
        · rw [List.mem_singleton.mp hq]
          exact ⟨hfree.live, by simpa using hfree.call, by simpa using hfree.family⟩
      idleNodup := H.idleNodup.append (List.nodup_singleton _) (by simpa using hfree.idle) }

theorem Settled.onFrame (H : Settled limits s) (launch : Call → Launch) (p type : ℕ)
    (payload : List UInt8) : Settled limits (Egress.onFrame limits launch p type payload s).2 := by
  rw [Egress.onFrame]
  by_cases hready : type = FRAME.ready
  · rw [if_pos hready]
    have H' := H.modify p (f := fun proc ↦ { proc with ready := true }) (fun _ ↦ rfl)
      (fun _ ↦ rfl) fun _ h ↦ h
    dsimp only
    split
    · exact H'
    · exact H'.modify p (fun _ ↦ rfl) (fun _ ↦ rfl) fun _ h ↦ h
  · rw [if_neg hready]
    cases hcall : (s.proc p).call with
    | none => exact H.refuse ..
    | some call =>
      dsimp only
      cases hparse : parseFetchProcessFrame type payload (s.proc p).id call.job with
      | none => exact H.refuse ..
      | some message =>
        cases message with
        | secured id =>
          dsimp only
          split_ifs
          · exact H.refuse ..
          · exact H.modify p (f := fun proc ↦ { proc with secured := true, connectTimer := none })
              (fun _ ↦ rfl) (fun _ ↦ rfl) fun _ h ↦ h
        | outcome id outcome =>
          refine Kept.drain ?_ launch
          have hleft := (H.kept.endCall p outcome).releaseFamily p
          obtain ⟨hcall', hfamily, hending, hidle, hprocesses⟩ :=
            releaseFamily_endCall p outcome s
          split_ifs with hend
          · exact hleft
          · rw [hending, Bool.not_eq_true] at hend
            have hlive : p ∈ s.processes := H.kept.mem_processes (.inl hend)
            refine hleft.goIdle ⟨hprocesses ▸ hlive, hcall', hfamily, ?_⟩
            rw [hidle]
            intro hp
            rw [(H.kept.idle p hp).2.1] at hcall
            exact absurd hcall (by simp)

theorem Settled.onData (H : Settled limits s) (launch : Call → Launch) (p : ℕ)
    (chunk : List UInt8) : Settled limits (Egress.onData limits launch p chunk s) := by
  rw [Egress.onData]
  split_ifs
  · exact H
  · have hpush : Settled limits
        ((push (frameRules limits launch p) (s.proc p).reader chunk).run s).2 :=
      push_preserves (fun _ _ h ↦ h) (fun type payload s h ↦ h.onFrame launch p type payload)
        (fun _ _ _ _ h ↦ h.refuse ..) (s.proc p).reader chunk H
    exact hpush.modify p (fun _ ↦ rfl) (fun _ ↦ rfl) fun _ h ↦ h

/-! ### Calls and signals -/

/-- A call is made, and is then in hand. -/
theorem Kept.call (H : Kept limits [] s) {call : Call} (hnumber : call.number = s.calls.length) :
    Kept limits [call] { s with calls := s.calls ++ [call] } := by
  have hnew : call ∉ s.calls := fun h ↦ absurd (H.number call h) (by omega)
  exact
    { H with
      balance := fun c ↦ by
        have hbalance := H.balance c
        change s.answers.countP _ + s.waiting.count c + tally (runs c) s + [call].count c =
          (s.calls ++ [call]).count c
        rw [List.count_append, ← hbalance, List.count_nil, Nat.add_zero]
      callsNodup := H.callsNodup.append (List.nodup_singleton _) (by simpa using hnew)
      number := fun c hc ↦ by
        rw [List.length_append, List.length_singleton]
        rcases List.mem_append.mp hc with hc | hc
        · exact (H.number c hc).trans (Nat.lt_succ_self _)
        · rw [List.mem_singleton.mp hc]
          omega }

/-- A call in hand joins the queue. -/
theorem Kept.enqueue {call : Call} (H : Kept limits [call] s) (hopen : s.closed = false)
    (hlive : s.aborted call.signal = false) :
    Kept limits []
      { s with
        waiting := s.waiting ++ [call]
        waitingByFamily := bump s.waitingByFamily call.family 1
        listeners := s.listeners ++ [.onWaitAbort call] } :=
  { H with
    waitingCount := fun f ↦ by
      have hf := H.waitingCount f
      change bump s.waitingByFamily call.family 1 f = (s.waiting ++ [call]).countP _
      rw [List.countP_append, List.countP_singleton, ← hf, bump]
      by_cases h : call.family = f
      · subst h
        simp
      · simp [Function.update_of_ne (Ne.symm h), h]
    balance := fun c ↦ by
      have hbalance := H.balance c
      change s.answers.countP _ + (s.waiting ++ [call]).count c + tally (runs c) s +
        ([] : List Call).count c = s.calls.count c
      rw [List.count_append, List.count_nil]
      omega
    waits := fun c ↦ by
      change c ∈ s.waiting ++ [call] ↔ Listener.onWaitAbort c ∈ s.listeners ++ [.onWaitAbort call]
      simp [H.waits c]
    listens := fun q c hq ↦ List.mem_append_left _ (H.listens q c hq)
    live := fun l hl ↦ by
      rcases List.mem_append.mp hl with hl | hl
      · exact H.live l hl
      · rw [List.mem_singleton.mp hl]
        exact hlive
    closed := fun hclosed ↦ by simp [hopen] at hclosed }

theorem Settled.exchange (H : Settled limits s) (launch : Launch) {call : Call}
    (hnumber : call.number = s.calls.length) :
    Settled limits (Egress.exchange limits launch call s) := by
  have hcall := H.kept.call hnumber
  have hsettle : ∀ outcome,
      Settled limits (settle call outcome { s with calls := s.calls ++ [call] }) :=
    fun outcome ↦ ⟨hcall.settle outcome, (Confined.settle ..).narrows.quiet H.quiet⟩
  rw [Egress.exchange]
  dsimp only
  split_ifs with hclosed haborted hstart hfull
  · exact hsettle _
  · exact hsettle _
  · exact ⟨hcall.start hstart (by simpa using haborted) launch,
      (Narrows.start launch call _).quiet H.quiet⟩
  · exact hsettle _
  · refine ⟨hcall.enqueue (by simpa using hclosed) (by simpa using haborted), fun c hc ↦ ?_⟩
    rcases List.mem_append.mp hc with hc | hc
    · exact H.quiet c hc
    · rw [List.mem_singleton.mp hc]
      exact Bool.eq_false_iff.mpr hstart

theorem settle_removeListener (call : Call) (outcome : ExchangeOutcome) (l : Listener) (s : Pool) :
    settle call outcome (removeListener l s) = removeListener l (settle call outcome s) := by
  simp only [settle, removeListener_answers]
  split_ifs <;> rfl

theorem removeListener_comm (l l' : Listener) (s : Pool) :
    removeListener l (removeListener l' s) = removeListener l' (removeListener l s) := by
  simp only [removeListener, List.filter_filter, Bool.and_comm]

theorem kill_removeListener (p : ℕ) (outcome : ExchangeOutcome) (l : Listener) (s : Pool) :
    kill p (some outcome) true (removeListener l s) =
      removeListener l (kill p (some outcome) true s) := by
  have hend : ∀ s, endCall p outcome (removeListener l s) = removeListener l (endCall p outcome s) := by
    intro s
    simp only [endCall, removeListener_proc]
    cases (s.proc p).call with
    | none => rfl
    | some call =>
      dsimp only
      rw [← settle_removeListener, removeListener_comm]
      rfl
  exact hend (leaveIdle p (modify p (fun proc ↦ { proc with ending := true })
    { s with deadlineKills := s.deadlineKills + 1 }))

/-- A process whose call has ended is listened to no more. -/
theorem Kept.unlisten (H : Kept limits inHand s) {p : ℕ} (call : Call)
    (hcall : (s.proc p).call = none) :
    Kept limits inHand (removeListener (.onCallAbort p call) s) :=
  { H with
    waits := fun c ↦ by simpa using H.waits c
    listens := fun q c hq ↦ by
      have hqp : q ≠ p := by
        rintro rfl
        rw [removeListener_proc, hcall] at hq
        simp at hq
      exact List.mem_filter.mpr ⟨H.listens q c hq, by simp [hqp]⟩
    live := fun l hl ↦ H.live l (List.mem_filter.mp hl).1 }

/-- A listener of the pool runs, once. -/
theorem Settled.fire (H : Settled limits s) {l : Listener} (hl : l ∈ s.listeners) :
    Settled limits (Egress.fire l (removeListener l s)) := by
  cases l with
  | onWaitAbort call =>
    have hmem : call ∈ s.waiting := (H.kept.waits call).mpr hl
    obtain ⟨l₁, l₂, -, hsplit, herase⟩ := List.exists_erase_eq hmem
    simp only [Egress.fire, removeListener_waiting, if_pos hmem, herase]
    have hin : Kept limits [call] (removeListener (.onWaitAbort call)
        { s with
          waiting := l₁ ++ l₂
          waitingByFamily := bump s.waitingByFamily call.family (-1) }) := H.kept.dequeue hsplit
    refine ⟨hin.settle _, (Confined.settle ..).narrows.quiet fun c hc ↦ ?_⟩
    refine H.quiet c ?_
    rw [hsplit]
    rcases List.mem_append.mp hc with hc | hc
    · exact List.mem_append_left _ hc
    · exact List.mem_append_right _ (List.mem_cons_of_mem _ hc)
  | onCallAbort p call =>
    rw [Egress.fire, kill_removeListener]
    have H' := H.kill p (some (failed call.job .timeout "the call timed out")) true
    exact ⟨H'.kept.unlisten call (endCall_self ..).1, H'.quiet⟩

/-- A listener adds none. -/
theorem mem_listeners_fire {l l' : Listener} (h : l' ∈ (fire l s).listeners) :
    l' ∈ s.listeners := by
  cases l with
  | onWaitAbort call =>
    simp only [fire] at h
    have hin := (Confined.settle ..).listeners l' h
    split_ifs at hin <;> exact hin
  | onCallAbort p call => exact (Confined.kill ..).listeners l' h

/-- Listeners run one after the other: each that ran is gone. -/
theorem Settled.fireAll (H : Settled limits s) (ls : List Listener) :
    Settled limits (ls.foldl (fun s l ↦
      if l ∈ s.listeners then Egress.fire l (removeListener l s) else s) s) ∧
      ∀ l ∈ (ls.foldl (fun s l ↦
        if l ∈ s.listeners then Egress.fire l (removeListener l s) else s) s).listeners,
        l ∈ s.listeners ∧ l ∉ ls := by
  induction ls generalizing s with
  | nil => exact ⟨H, fun l hl ↦ ⟨hl, List.not_mem_nil⟩⟩
  | cons l ls ih =>
    rw [List.foldl_cons]
    by_cases hl : l ∈ s.listeners
    · rw [if_pos hl]
      obtain ⟨hsettled, hgone⟩ := ih (H.fire hl)
      refine ⟨hsettled, fun l' hl' ↦ ?_⟩
      obtain ⟨hin, hnot⟩ := hgone l' hl'
      have hfilter := List.mem_filter.mp (mem_listeners_fire hin)
      refine ⟨hfilter.1, fun h ↦ ?_⟩
      rcases List.mem_cons.mp h with rfl | h
      · simp at hfilter
      · exact hnot h
    · rw [if_neg hl]
      obtain ⟨hsettled, hgone⟩ := ih H
      refine ⟨hsettled, fun l' hl' ↦ ?_⟩
      obtain ⟨hin, hnot⟩ := hgone l' hl'
      refine ⟨hin, fun h ↦ ?_⟩
      rcases List.mem_cons.mp h with rfl | h
      · exact hl hin
      · exact hnot h

theorem Settled.abort (H : Settled limits s) (signal : ℕ) :
    Settled limits (Egress.abort signal s) := by
  rw [Egress.abort]
  obtain ⟨hsettled, hgone⟩ := H.fireAll (s.listeners.filter (·.call.signal = signal))
  generalize (s.listeners.filter (·.call.signal = signal)).foldl _ s = t at hsettled hgone ⊢
  refine ⟨{ hsettled.kept with live := fun l hl ↦ ?_ }, hsettled.quiet⟩
  obtain ⟨hin, hnot⟩ := hgone l hl
  have hother : l.call.signal ≠ signal := fun h ↦
    hnot (List.mem_filter.mpr ⟨hin, by simpa using h⟩)
  change Function.update t.aborted signal true l.call.signal = false
  rw [Function.update_of_ne hother]
  exact hsettled.kept.live l hl

/-! ### Closing -/

/-- The pool once it is closed and its queue is empty. -/
def emptied (s : Pool) : Pool :=
  { s with closed := true, waiting := [], waitingByFamily := fun _ ↦ 0 }

/-- What `close` does with the calls that wait. -/
def refuseAll (waiting : List Call) (s : Pool) : Pool :=
  waiting.foldl (fun s call ↦
    settle call (failed call.job .network "the egress client is closed")
      (removeListener (.onWaitAbort call) s)) s

theorem settle_emptied (call : Call) (outcome : ExchangeOutcome) (l : Listener) (s : Pool) :
    settle call outcome (removeListener l (emptied s)) =
      emptied (settle call outcome (removeListener l s)) := by
  simp only [settle, removeListener_answers, emptied]
  split_ifs <;> rfl

theorem refuseAll_emptied (waiting : List Call) (s : Pool) :
    refuseAll waiting (emptied s) = emptied (refuseAll waiting s) := by
  induction waiting generalizing s with
  | nil => rfl
  | cons call waiting ih =>
    simp only [refuseAll, List.foldl_cons] at ih ⊢
    rw [← ih, settle_emptied]

/-- `close` counts the calls that wait at zero once they are answered. -/
theorem refuseAll_closed (waiting : List Call) (s : Pool) :
    { refuseAll waiting { s with closed := true, waiting := [] } with
      waitingByFamily := fun _ ↦ 0 } = refuseAll waiting (emptied s) := by
  induction waiting generalizing s with
  | nil => rfl
  | cons call waiting ih =>
    have hstep : settle call (failed call.job .network "the egress client is closed")
        (removeListener (.onWaitAbort call) { s with closed := true, waiting := [] }) =
        { settle call (failed call.job .network "the egress client is closed")
          (removeListener (.onWaitAbort call) s) with closed := true, waiting := [] } := by
      simp only [settle, removeListener_answers]
      split_ifs <;> rfl
    simp only [refuseAll, List.foldl_cons] at ih ⊢
    rw [hstep, settle_emptied]
    exact ih _

theorem Kept.refuseAll (H : Kept limits [] s) {waiting : List Call} (hwaiting : s.waiting = waiting) :
    Kept limits [] (emptied (Egress.refuseAll waiting s)) := by
  induction waiting generalizing s with
  | nil =>
    exact
      { H with
        waitingCount := fun _ ↦ rfl
        balance := fun c ↦ by
          have hbalance := H.balance c
          rw [hwaiting] at hbalance
          exact hbalance
        waits := fun c ↦ by
          have hwaits := H.waits c
          rw [hwaiting] at hwaits
          exact hwaits
        closed := fun _ ↦ rfl }
  | cons call waiting ih =>
    -- the first call is taken off the queue and answered
    have hnext := ih ((H.dequeue (show s.waiting = [] ++ call :: waiting from hwaiting)).settle
      (failed call.job .network "the egress client is closed"))
      ((Confined.settle ..).waiting.trans rfl)
    have hsame : emptied (Egress.settle call
        (failed call.job .network "the egress client is closed")
        (removeListener (.onWaitAbort call)
          { s with
            waiting := [] ++ waiting
            waitingByFamily := bump s.waitingByFamily call.family (-1) })) =
        emptied (Egress.settle call (failed call.job .network "the egress client is closed")
          (removeListener (.onWaitAbort call) s)) := by
      simp only [Egress.settle, removeListener_answers, emptied]
      split_ifs <;> rfl
    rw [← refuseAll_emptied, hsame, refuseAll_emptied] at hnext
    exact hnext

theorem Settled.killAll (H : Settled limits s) (what : String) (ps : List ℕ) :
    Settled limits (ps.foldl (fun s p ↦ Egress.kill p (callFailed p what s) false s) s) := by
  induction ps generalizing s with
  | nil => exact H
  | cons p ps ih => exact ih (H.kill ..)

theorem Settled.close (H : Settled limits s) : Settled limits (Egress.close s) := by
  have hclosed : Settled limits (refuseAll s.waiting (emptied s)) := by
    rw [refuseAll_emptied]
    exact ⟨H.kept.refuseAll rfl, fun c hc ↦ absurd hc List.not_mem_nil⟩
  rw [← refuseAll_closed] at hclosed
  exact hclosed.killAll _ _

/-! ### Every event -/

theorem Settled.initial (limits : ProcessPoolLimits) : Settled limits createProcessPool where
  kept :=
    { nodup := List.nodup_nil
      next := fun _ h ↦ absurd h List.not_mem_nil
      absent := fun _ _ ↦ ⟨rfl, rfl, rfl⟩
      size := Nat.zero_le _
      idle := fun _ h ↦ absurd h List.not_mem_nil
      idleNodup := List.nodup_nil
      held := fun _ ↦ rfl
      heldLe := fun _ ↦ Nat.zero_le _
      waitingCount := fun _ ↦ rfl
      balance := fun _ ↦ rfl
      callsNodup := List.nodup_nil
      number := fun _ h ↦ absurd h List.not_mem_nil
      waits := fun _ ↦ by simp [createProcessPool]
      listens := fun _ _ h ↦ absurd h (by simp [createProcessPool, FetchProcess.absent,
        FetchProcess.spawned])
      live := fun _ h ↦ absurd h List.not_mem_nil
      closed := fun _ ↦ rfl }
  quiet := fun _ h ↦ absurd h List.not_mem_nil

variable {getDomain : JsString → Option JsString}

theorem Settled.step (H : Settled limits s) {event : PoolEvent}
    (h : PoolEvent.step limits getDomain s event = some s') : Settled limits s' := by
  cases event with
  | exchange job literalFamily signal launch =>
    obtain rfl := Option.some.inj h
    exact H.exchange launch rfl
  | abort signal =>
    obtain rfl := Option.some.inj h
    exact H.abort signal
  | data p chunk launch =>
    obtain rfl := Option.some.inj h
    exact H.onData launch p chunk
  | writeFailed p =>
    obtain rfl := Option.some.inj h
    exact H.unreachable p
  | lost p =>
    obtain rfl := Option.some.inj h
    split_ifs
    · exact H
    · exact H.kill ..
  | exit p launch =>
    obtain rfl := Option.some.inj h
    exact H.onExit launch p
  | error p started launch =>
    obtain rfl := Option.some.inj h
    split_ifs
    · exact H.onExit launch p
    · exact H
    · exact H.kill ..
  | connectTimeout p =>
    obtain ⟨call, -, rfl⟩ := Option.map_eq_some_iff.mp h
    refine Settled.kill ?_ ..
    exact H.modify p (fun _ ↦ rfl) (fun _ ↦ rfl) fun _ h ↦ h
  | idleTimeout p =>
    rw [PoolEvent.step, Option.ite_none_right_eq_some] at h
    obtain rfl := Option.some.inj h.2
    exact H.kill ..
  | close =>
    obtain rfl := Option.some.inj h
    exact H.close

theorem settled_invariant (limits : ProcessPoolLimits) (getDomain : JsString → Option JsString) :
    (pool limits getDomain).Invariant (Settled limits) where
  initial := fun s h ↦ by
    rw [show s = createProcessPool from h]
    exact .initial limits
  step := fun _ _ _ H h ↦ H.step h

theorem Kept.place (H : Kept limits [] s) {call : Call} (hcall : call ∈ s.calls) :
    s.answers.countP (·.1 = call) = 1 ∧ call ∉ s.waiting ∧
        (∀ p ∈ s.processes, (s.proc p).call ≠ some call) ∨
      s.answers.countP (·.1 = call) = 0 ∧ s.aborted call.signal = false ∧
        (call ∈ s.waiting ∨ ∃ p ∈ s.processes, (s.proc p).call = some call) := by
  have hbalance := H.balance call
  rw [List.count_nil, Nat.add_zero, List.count_eq_one_of_mem H.callsNodup hcall] at hbalance
  have hruns : tally (runs call) s = 0 ↔ ∀ p ∈ s.processes, (s.proc p).call ≠ some call := by
    rw [tally, List.countP_eq_zero]
    simp [runs]
  by_cases hwaiting : call ∈ s.waiting
  · have hpos := List.count_pos_iff.mpr hwaiting
    exact .inr ⟨by omega, H.live _ ((H.waits call).mp hwaiting), .inl hwaiting⟩
  · rw [List.count_eq_zero_of_not_mem hwaiting] at hbalance
    by_cases hrun : ∀ p ∈ s.processes, (s.proc p).call ≠ some call
    · exact .inl ⟨by rw [hruns.mpr hrun] at hbalance; omega, hwaiting, hrun⟩
    · have hpos : tally (runs call) s ≠ 0 := fun h ↦ hrun (hruns.mp h)
      push Not at hrun
      obtain ⟨p, hp, hproc⟩ := hrun
      exact .inr ⟨by omega, H.live _ (H.listens p call hproc), .inr ⟨p, hp, hproc⟩⟩

/-- In every state that the pool reaches between two events: at most `maxProcesses` processes are
live; a family's count is the number of live processes that hold it, at most
`maxProcessesPerFamily`; the calls that wait are counted right; each call is answered once, or is
not answered yet, its signal not having aborted, and waits or is run by a live process; and no call
waits that may start. -/
theorem pool_settled (limits : ProcessPoolLimits) (getDomain : JsString → Option JsString)
    {s : Pool} (h : (pool limits getDomain).Reachable s) :
    s.processes.Nodup ∧ s.processes.length ≤ limits.maxProcesses ∧
      (∀ family, s.held family = s.processes.countP (fun p ↦ (s.proc p).family = some family) ∧
        s.held family ≤ limits.maxProcessesPerFamily) ∧
      (∀ family, s.waitingByFamily family = s.waiting.countP (·.family = family)) ∧
      (∀ call ∈ s.calls,
        s.answers.countP (·.1 = call) = 1 ∧ call ∉ s.waiting ∧
            (∀ p ∈ s.processes, (s.proc p).call ≠ some call) ∨
          s.answers.countP (·.1 = call) = 0 ∧ s.aborted call.signal = false ∧
            (call ∈ s.waiting ∨ ∃ p ∈ s.processes, (s.proc p).call = some call)) ∧
      ∀ call ∈ s.waiting, canStart limits call.family s = false := by
  have H := (settled_invariant limits getDomain).reachable h
  exact ⟨H.kept.nodup, H.kept.size, fun family ↦ ⟨H.kept.held family, H.kept.heldLe family⟩,
    H.kept.waitingCount, fun _ hcall ↦ H.kept.place hcall, H.quiet⟩

namespace SamplePool

/-- Two processes, one for each family. -/
def bounds : ProcessPoolLimits := ⟨2, 1, 8, 8⟩

def launch : Launch := ⟨true, true, true⟩

def job : ExchangeJob := ⟨units "op.example", 100⟩

/-- Of three calls to one family two wait; the second starts when the process of the first exits, and
is killed when its signal aborts. -/
def events : List PoolEvent :=
  [.exchange job .name 0 launch, .exchange job .name 1 launch, .exchange job .name 2 launch,
    .exit 0 fun _ ↦ launch, .abort 1]

end SamplePool

open SamplePool in
/-- Two calls are answered, and the third waits for the slot of the process that was killed. -/
theorem pool_settled_sample : ∃ s, (pool bounds some).Reachable s ∧
    s.calls.map (·.number) = [0, 1, 2] ∧ s.answers.map (·.1.number) = [0, 1] ∧
    s.waiting.map (·.number) = [2] ∧ s.processes = [1] ∧
    ∀ call ∈ s.waiting, canStart bounds call.family s = false := by
  have hexec : (Transition.exec (pool bounds some).step createProcessPool events).map
      (fun s ↦ (s.calls.map (·.number), s.answers.map (·.1.number), s.waiting.map (·.number),
        s.processes)) = some ([0, 1, 2], [0, 1], [2], [1]) := by
    decide
  obtain ⟨s, hs, hfacts⟩ := Option.map_eq_some_iff.mp hexec
  obtain ⟨hcalls, hanswers, hwaiting, hprocesses⟩ : s.calls.map (·.number) = [0, 1, 2] ∧
      s.answers.map (·.1.number) = [0, 1] ∧ s.waiting.map (·.number) = [2] ∧
      s.processes = [1] := by simpa using hfacts
  have hreach : (pool bounds some).Reachable s := ⟨_, _, rfl, Transition.Run.of_exec hs⟩
  obtain ⟨-, -, -, -, -, hquiet⟩ := pool_settled bounds some hreach
  exact ⟨s, hreach, hcalls, hanswers, hwaiting, hprocesses, hquiet⟩

end QAuth.Egress
