import QAuth.Egress.Pool
import QAuth.Foundation.Table

/-!
# What the pool keeps in step

The books of the pool: the processes held for a family, the calls that wait for one, and where each
call is. `Kept` says that they agree, but for some calls in hand, which are in no book. Each
operation of the pool keeps it, whichever process or call it is about.
-/

namespace QAuth.Egress

/-- How many live processes have a record that meets a predicate. -/
def tally (P : FetchProcess → Bool) (s : Pool) : ℕ := s.processes.countP fun p ↦ P (s.proc p)

theorem tally_modify {s : Pool} (hnodup : s.processes.Nodup) {p : ℕ} (hp : p ∈ s.processes)
    (P : FetchProcess → Bool) (f : FetchProcess → FetchProcess) :
    tally P (modify p f s) + (P (s.proc p)).toNat = tally P s + (P (f (s.proc p))).toNat :=
  Table.countP_update hnodup hp s.proc P (f (s.proc p))

theorem tally_modify_of_eq {s : Pool} {p : ℕ} {P : FetchProcess → Bool}
    {f : FetchProcess → FetchProcess} (h : P (f (s.proc p)) = P (s.proc p)) :
    tally P (modify p f s) = tally P s := by
  refine List.countP_congr fun q _ ↦ ?_
  by_cases hq : q = p
  · subst hq
    simp [modify, h]
  · simp [modify, Function.update_of_ne hq]

@[simp] theorem tally_removeListener (P : FetchProcess → Bool) (l : Listener) (s : Pool) :
    tally P (removeListener l s) = tally P s := rfl

def holds (family : JsString) (proc : FetchProcess) : Bool := proc.family = some family

def runs (call : Call) (proc : FetchProcess) : Bool := proc.call = some call

/-- The books of the pool agree, but for the calls in hand. -/
structure Kept (limits : ProcessPoolLimits) (inHand : List Call) (s : Pool) : Prop where
  nodup : s.processes.Nodup
  next : ∀ p ∈ s.processes, p < s.nextProcess
  absent : ∀ p ∉ s.processes,
    (s.proc p).ending = true ∧ (s.proc p).call = none ∧ (s.proc p).family = none
  size : s.processes.length ≤ limits.maxProcesses
  idle : ∀ p ∈ s.idle, p ∈ s.processes ∧ (s.proc p).call = none ∧ (s.proc p).family = none
  idleNodup : s.idle.Nodup
  held : ∀ family, s.held family = tally (holds family) s
  heldLe : ∀ family, s.held family ≤ limits.maxProcessesPerFamily
  waitingCount : ∀ family, s.waitingByFamily family = s.waiting.countP (·.family = family)
  balance : ∀ call, s.answers.countP (·.1 = call) + s.waiting.count call + tally (runs call) s +
    inHand.count call = s.calls.count call
  callsNodup : s.calls.Nodup
  number : ∀ call ∈ s.calls, call.number < s.calls.length
  waits : ∀ call, call ∈ s.waiting ↔ .onWaitAbort call ∈ s.listeners
  listens : ∀ p call, (s.proc p).call = some call → .onCallAbort p call ∈ s.listeners
  live : ∀ l ∈ s.listeners, s.aborted l.call.signal = false
  closed : s.closed = true → s.waiting = []

namespace Kept

variable {limits : ProcessPoolLimits} {inHand : List Call} {s : Pool}

/-- A call is in one place at most. -/
theorem balance_le_one (H : Kept limits inHand s) (call : Call) :
    s.answers.countP (·.1 = call) + s.waiting.count call + tally (runs call) s +
      inHand.count call ≤ 1 := by
  rw [H.balance]
  exact List.nodup_iff_count_le_one.mp H.callsNodup call

/-- A process that holds a slot or runs a call, or is not ending, is live. -/
theorem mem_processes (H : Kept limits inHand s) {p : ℕ}
    (h : (s.proc p).ending = false ∨ (s.proc p).call ≠ none ∨ (s.proc p).family ≠ none) :
    p ∈ s.processes := by
  by_contra hp
  obtain ⟨hending, hcall, hfamily⟩ := H.absent p hp
  simp [hending, hcall, hfamily] at h

/-- A change of a record that leaves its call and its family, and an end. -/
theorem modify (H : Kept limits inHand s) (p : ℕ) {f : FetchProcess → FetchProcess}
    (hcall : ∀ proc, (f proc).call = proc.call) (hfamily : ∀ proc, (f proc).family = proc.family)
    (hending : ∀ proc, proc.ending = true → (f proc).ending = true) :
    Kept limits inHand (Egress.modify p f s) := by
  have hproc : ∀ q, ((Egress.modify p f s).proc q).call = (s.proc q).call ∧
      ((Egress.modify p f s).proc q).family = (s.proc q).family ∧
      ((s.proc q).ending = true → ((Egress.modify p f s).proc q).ending = true) := by
    intro q
    by_cases hq : q = p
    · subst hq
      simpa [Egress.modify, hcall, hfamily] using hending (s.proc q)
    · simp [Egress.modify, Function.update_of_ne hq]
  have hholds : ∀ family, tally (holds family) (Egress.modify p f s) = tally (holds family) s :=
    fun family ↦ tally_modify_of_eq (by simp [holds, hfamily])
  have hruns : ∀ call, tally (runs call) (Egress.modify p f s) = tally (runs call) s :=
    fun call ↦ tally_modify_of_eq (by simp [runs, hcall])
  exact
    { H with
      absent := fun q hq ↦ by
        obtain ⟨h₁, h₂, h₃⟩ := H.absent q hq
        exact ⟨(hproc q).2.2 h₁, (hproc q).1.trans h₂, (hproc q).2.1.trans h₃⟩
      idle := fun q hq ↦ by
        obtain ⟨h₁, h₂, h₃⟩ := H.idle q hq
        exact ⟨h₁, (hproc q).1.trans h₂, (hproc q).2.1.trans h₃⟩
      held := fun family ↦ by rw [hholds]; exact H.held family
      balance := fun call ↦ by rw [hruns]; exact H.balance call
      listens := fun q call hq ↦ H.listens q call ((hproc q).1 ▸ hq) }

theorem leaveIdle (H : Kept limits inHand s) (p : ℕ) : Kept limits inHand (Egress.leaveIdle p s) :=
  have H' := H.modify p (f := fun proc ↦ { proc with idleTimer := false }) (fun _ ↦ rfl)
    (fun _ ↦ rfl) fun _ h ↦ h
  { H' with
    idle := fun q hq ↦ H'.idle q (List.mem_of_mem_erase hq)
    idleNodup := H'.idleNodup.erase p }

theorem settle {call : Call} (H : Kept limits (call :: inHand) s) (outcome : ExchangeOutcome) :
    Kept limits inHand (Egress.settle call outcome s) := by
  have hnone : s.answers.any (·.1 = call) = false := by
    have hle := H.balance_le_one call
    rw [List.count_cons_self] at hle
    have hzero : s.answers.countP (·.1 = call) = 0 := by omega
    rw [List.any_eq_false]
    intro a ha
    simpa using List.countP_eq_zero.mp hzero a ha
  rw [Egress.settle, hnone]
  exact
    { H with
      balance := fun c ↦ by
        have hbalance := H.balance c
        simp only [Bool.false_eq_true, if_false, List.countP_append, List.countP_cons,
          List.countP_nil, List.count_cons] at hbalance ⊢
        rw [← hbalance]
        simp only [beq_iff_eq, decide_eq_true_eq]
        show _ + tally (runs c) s + _ = _ + tally (runs c) s + _
        omega }

/-- A running call is taken off its process, and is then in hand. -/
theorem detach (H : Kept limits inHand s) {p : ℕ} {call : Call} (hcall : (s.proc p).call = some call) :
    Kept limits (call :: inHand) (removeListener (.onCallAbort p call)
      (Egress.modify p (fun proc ↦ { proc with call := none, connectTimer := none }) s)) := by
  have hp : p ∈ s.processes := H.mem_processes (.inr (.inl (by simp [hcall])))
  have hholds : ∀ family, tally (holds family) (Egress.modify p
      (fun proc ↦ { proc with call := none, connectTimer := none }) s) = tally (holds family) s :=
    fun family ↦ tally_modify_of_eq rfl
  refine
    { H with
      absent := fun q hq ↦ ?_
      idle := fun q hq ↦ ?_
      held := fun family ↦ (H.held family).trans (hholds family).symm
      balance := fun c ↦ ?_
      waits := fun c ↦ ?_
      listens := fun q c hq ↦ ?_
      live := fun l hl ↦ H.live l (List.mem_filter.mp hl).1 }
  · have hqp : q ≠ p := fun h ↦ hq (h ▸ hp)
    simpa [Function.update_of_ne hqp] using H.absent q hq
  · have hidle := H.idle q hq
    by_cases hqp : q = p
    · subst hqp
      simp [hcall] at hidle
    · simpa [Function.update_of_ne hqp] using hidle
  · have hbalance := H.balance c
    have htally := tally_modify H.nodup hp (runs c)
      fun proc ↦ { proc with call := none, connectTimer := none }
    simp only [runs, hcall, Option.some.injEq, reduceCtorEq, decide_false, Bool.toNat_false,
      Nat.add_zero] at htally
    rw [List.count_cons]
    simp only [removeListener_answers, modify_answers, removeListener_waiting, modify_waiting,
      removeListener_calls, modify_calls, tally_removeListener]
    by_cases hc : call = c
    · simp only [hc, decide_true, Bool.toNat_true, beq_self_eq_true, if_true] at htally ⊢
      omega
    · simp only [hc, decide_false, Bool.toNat_false, beq_iff_eq, if_false, Nat.add_zero] at htally ⊢
      omega
  · simpa using H.waits c
  · by_cases hqp : q = p
    · subst hqp
      simp at hq
    · simp only [removeListener_proc, modify_proc, Function.update_of_ne hqp] at hq
      refine List.mem_filter.mpr ⟨H.listens q c hq, ?_⟩
      simp [hqp]

theorem endCall (H : Kept limits inHand s) (p : ℕ) (outcome : ExchangeOutcome) :
    Kept limits inHand (Egress.endCall p outcome s) := by
  rw [Egress.endCall]
  cases hcall : (s.proc p).call with
  | none => exact H
  | some call => exact (H.detach hcall).settle outcome

theorem releaseFamily (H : Kept limits inHand s) (p : ℕ) :
    Kept limits inHand (Egress.releaseFamily p s) := by
  rw [Egress.releaseFamily]
  cases hfamily : (s.proc p).family with
  | none => exact H
  | some family =>
    have hp : p ∈ s.processes := H.mem_processes (.inr (.inr (by simp [hfamily])))
    have htally : ∀ f, tally (holds f) (Egress.modify p (fun proc ↦ { proc with family := none }) s) +
        (if f = family then 1 else 0) = s.held f := by
      intro f
      have hmodify := tally_modify H.nodup hp (holds f) fun proc ↦ { proc with family := none }
      rw [H.held f]
      simp only [holds, hfamily, Option.some.injEq, reduceCtorEq, decide_false, Bool.toNat_false,
        Nat.add_zero] at hmodify ⊢
      rw [← hmodify]
      by_cases hf : f = family
      · simp [hf]
      · simp [hf, Ne.symm hf]
    have hheld : ∀ f, bump s.held family (-1) f = tally (holds f)
        (Egress.modify p (fun proc ↦ { proc with family := none }) s) := by
      intro f
      have hf := htally f
      by_cases h : f = family
      · subst h
        rw [bump, Function.update_self]
        simp only [if_true] at hf
        omega
      · rw [bump, Function.update_of_ne h]
        simpa [h] using hf.symm
    refine
      { H with
        absent := fun q hq ↦ ?_
        idle := fun q hq ↦ ?_
        held := hheld
        heldLe := fun f ↦ ?_
        balance := fun c ↦ ?_
        listens := fun q c hq ↦ ?_ }
    · have hqp : q ≠ p := fun h ↦ hq (h ▸ hp)
      simpa [Function.update_of_ne hqp] using H.absent q hq
    · have hidle := H.idle q hq
      by_cases hqp : q = p
      · subst hqp
        simp [hfamily] at hidle
      · simpa [Function.update_of_ne hqp] using hidle
    · have hle := H.heldLe f
      have hf := htally f
      change bump s.held family (-1) f ≤ _
      rw [hheld f]
      omega
    · refine Eq.trans ?_ (H.balance c)
      rw [show tally (runs c) s = tally (runs c)
          (Egress.modify p (fun proc ↦ { proc with family := none }) s) from
        (tally_modify_of_eq (by simp [runs])).symm]
      rfl
    · refine H.listens q c ?_
      by_cases hqp : q = p
      · subst hqp
        simpa using hq
      · simpa [Function.update_of_ne hqp] using hq

theorem kill (H : Kept limits inHand s) (p : ℕ) (outcome : Option ExchangeOutcome)
    (atDeadline : Bool) : Kept limits inHand (Egress.kill p outcome atDeadline s) := by
  have hkills : Kept limits inHand
      (if atDeadline then { s with deadlineKills := s.deadlineKills + 1 } else s) := by
    split_ifs
    · exact { H with }
    · exact H
  have hleft := (hkills.modify p (f := fun proc ↦ { proc with ending := true }) (fun _ ↦ rfl)
    (fun _ ↦ rfl) fun _ _ ↦ rfl).leaveIdle p
  cases outcome with
  | none => exact hleft
  | some outcome => exact hleft.endCall p outcome

theorem unreachable (H : Kept limits inHand s) (p : ℕ) :
    Kept limits inHand (Egress.unreachable p s) := by
  rw [Egress.unreachable]
  split_ifs
  · exact H
  · exact H.kill ..

theorem send (H : Kept limits inHand s) (p : ℕ) (reached : Bool) :
    Kept limits inHand (Egress.send p reached s) := by
  rw [Egress.send]
  split_ifs
  · exact H
  · exact H.unreachable p

theorem refuse (H : Kept limits inHand s) (p : ℕ) (what : String) :
    Kept limits inHand (Egress.refuse p what s) := by
  rw [Egress.refuse]
  split_ifs
  · exact H
  · exact H.kill ..

end Kept

/-! ### Ending frees nothing -/

/-- What is left when calls and processes end: no slot and no place is free that was not. -/
structure Confined (s s' : Pool) : Prop where
  processes : s'.processes = s.processes
  held : s'.held = s.held
  waiting : s'.waiting = s.waiting
  idle : ∀ p ∈ s'.idle, p ∈ s.idle
  closed : s'.closed = s.closed
  aborted : s'.aborted = s.aborted
  listeners : ∀ l ∈ s'.listeners, l ∈ s.listeners

namespace Confined

theorem refl (s : Pool) : Confined s s := ⟨rfl, rfl, rfl, fun _ h ↦ h, rfl, rfl, fun _ h ↦ h⟩

theorem trans {s₁ s₂ s₃ : Pool} (h : Confined s₁ s₂) (h' : Confined s₂ s₃) : Confined s₁ s₃ where
  processes := h'.processes.trans h.processes
  held := h'.held.trans h.held
  waiting := h'.waiting.trans h.waiting
  idle := fun p hp ↦ h.idle p (h'.idle p hp)
  closed := h'.closed.trans h.closed
  aborted := h'.aborted.trans h.aborted
  listeners := fun l hl ↦ h.listeners l (h'.listeners l hl)

theorem settle (call : Call) (outcome : ExchangeOutcome) (s : Pool) :
    Confined s (Egress.settle call outcome s) := by
  rw [Egress.settle]
  split_ifs
  · exact refl s
  · exact ⟨rfl, rfl, rfl, fun _ h ↦ h, rfl, rfl, fun _ h ↦ h⟩

theorem leaveIdle (p : ℕ) (s : Pool) : Confined s (Egress.leaveIdle p s) :=
  ⟨rfl, rfl, rfl, fun _ h ↦ List.mem_of_mem_erase h, rfl, rfl, fun _ h ↦ h⟩

theorem endCall (p : ℕ) (outcome : ExchangeOutcome) (s : Pool) :
    Confined s (Egress.endCall p outcome s) := by
  rw [Egress.endCall]
  cases (s.proc p).call with
  | none => exact refl s
  | some call =>
    refine Confined.trans ?_ (settle ..)
    exact ⟨rfl, rfl, rfl, fun _ h ↦ h, rfl, rfl, fun _ h ↦ (List.mem_filter.mp h).1⟩

theorem kill (p : ℕ) (outcome : Option ExchangeOutcome) (atDeadline : Bool) (s : Pool) :
    Confined s (Egress.kill p outcome atDeadline s) := by
  have hleft : Confined s (Egress.leaveIdle p (modify p (fun proc ↦ { proc with ending := true })
      (if atDeadline then { s with deadlineKills := s.deadlineKills + 1 } else s))) := by
    refine .trans ?_ (leaveIdle ..)
    split_ifs <;> exact ⟨rfl, rfl, rfl, fun _ h ↦ h, rfl, rfl, fun _ h ↦ h⟩
  cases outcome with
  | none => exact hleft
  | some outcome => exact hleft.trans (endCall ..)

theorem unreachable (p : ℕ) (s : Pool) : Confined s (Egress.unreachable p s) := by
  rw [Egress.unreachable]
  split_ifs
  · exact refl s
  · exact kill ..

theorem send (p : ℕ) (reached : Bool) (s : Pool) : Confined s (Egress.send p reached s) := by
  rw [Egress.send]
  split_ifs
  · exact refl s
  · exact unreachable ..

theorem refuse (p : ℕ) (what : String) (s : Pool) : Confined s (Egress.refuse p what s) := by
  rw [Egress.refuse]
  split_ifs
  · exact refl s
  · exact kill ..

end Confined

/-! ### Starting -/

/-- A live process that is not idle, runs no call and holds no slot. -/
structure Free (p : ℕ) (s : Pool) : Prop where
  live : p ∈ s.processes
  call : (s.proc p).call = none
  family : (s.proc p).family = none
  idle : p ∉ s.idle

theorem Free.leaveIdle {p : ℕ} {s : Pool} (h : Free p s) : Free p (Egress.leaveIdle p s) where
  live := h.live
  call := by simpa [Egress.leaveIdle] using h.call
  family := by simpa [Egress.leaveIdle] using h.family
  idle := fun hp ↦ h.idle (List.mem_of_mem_erase hp)

theorem Free.send {p : ℕ} {s : Pool} (h : Free p s) (reached : Bool) :
    Free p (Egress.send p reached s) := by
  have hcall := h.call
  rw [Egress.send, unreachable, callFailed, hcall, Option.map_none, kill]
  simp only [Bool.false_eq_true, if_false]
  split_ifs
  · exact h
  · exact h
  · refine Free.leaveIdle ⟨h.live, ?_, ?_, h.idle⟩
    · simpa using h.call
    · simpa using h.family

namespace Kept

variable {limits : ProcessPoolLimits} {inHand : List Call} {s : Pool}

theorem spawnProcess (H : Kept limits inHand s)
    (hsize : s.processes.length < limits.maxProcesses) (launch : Launch) :
    Kept limits inHand (Egress.spawnProcess launch s) ∧
      Free s.nextProcess (Egress.spawnProcess launch s) := by
  have hnew : s.nextProcess ∉ s.processes := fun h ↦ absurd (H.next _ h) (lt_irrefl _)
  have hproc : ∀ q, q ≠ s.nextProcess →
      Function.update s.proc s.nextProcess FetchProcess.spawned q = s.proc q :=
    fun q hq ↦ Function.update_of_ne hq ..
  have hself : Function.update s.proc s.nextProcess FetchProcess.spawned s.nextProcess =
      .spawned := Function.update_self ..
  have htally : ∀ P : FetchProcess → Bool, P .spawned = false →
      (s.processes ++ [s.nextProcess]).countP
        (fun q ↦ P (Function.update s.proc s.nextProcess FetchProcess.spawned q)) = tally P s := by
    intro P hP
    rw [List.countP_append, List.countP_singleton, hself, hP, tally]
    refine List.countP_congr fun q hq ↦ ?_
    rw [hproc q (ne_of_mem_of_not_mem hq hnew)]
  have hspawned : Kept limits inHand
      { s with
        processes := s.processes ++ [s.nextProcess]
        proc := Function.update s.proc s.nextProcess .spawned
        nextProcess := s.nextProcess + 1 } := by
    refine
      { H with
        nodup := H.nodup.append (List.nodup_singleton _) (by simpa using hnew)
        next := fun q hq ↦ ?_
        absent := fun q hq ↦ ?_
        size := by simpa using hsize
        idle := fun q hq ↦ ?_
        held := fun family ↦ (H.held family).trans (htally (holds family) rfl).symm
        balance := fun c ↦ ?_
        listens := fun q c hq ↦ ?_ }
    · rcases List.mem_append.mp hq with hq | hq
      · exact (H.next q hq).trans (Nat.lt_succ_self _)
      · rw [List.mem_singleton.mp hq]
        exact Nat.lt_succ_self _
    · rw [List.mem_append, List.mem_singleton, not_or] at hq
      simpa only [hproc q hq.2] using H.absent q hq.1
    · have hidle := H.idle q hq
      simp only [hproc q (ne_of_mem_of_not_mem hidle.1 hnew)]
      exact ⟨List.mem_append_left _ hidle.1, hidle.2⟩
    · exact (congrArg (fun n ↦ _ + n + _) (htally (runs c) rfl)).trans (H.balance c)
    · by_cases hqp : q = s.nextProcess
      · simp [hqp, FetchProcess.spawned] at hq
      · exact H.listens q c (by simpa only [hproc q hqp] using hq)
  refine ⟨hspawned.send _ _, Free.send ⟨?_, ?_, ?_, ?_⟩ _⟩
  · exact List.mem_append_right _ (List.mem_singleton_self _)
  · simp [FetchProcess.spawned]
  · simp [FetchProcess.spawned]
  · exact fun h ↦ hnew (H.idle _ h).1

/-- A free process takes the call in hand, and a slot of its family. -/
theorem assign {call : Call} (H : Kept limits (call :: inHand) s) {p : ℕ} (hfree : Free p s)
    (hheld : s.held call.family < limits.maxProcessesPerFamily)
    (hlive : s.aborted call.signal = false) (id : UInt32) :
    Kept limits inHand
      { Egress.modify p (fun proc ↦
          { proc with id := id, call := some call, secured := false, family := some call.family })
          s with
        nextId := id
        held := bump s.held call.family 1
        listeners := s.listeners ++ [.onCallAbort p call] } := by
  have hheld' : ∀ f, bump s.held call.family 1 f =
      s.held f + (if call.family = f then 1 else 0) := by
    intro f
    rw [bump]
    by_cases hf : call.family = f
    · subst hf
      simp
    · rw [Function.update_of_ne (Ne.symm hf), if_neg hf, Nat.add_zero]
  refine
    { H with
      absent := fun q hq ↦ ?_
      idle := fun q hq ↦ ?_
      held := fun f ↦ ?_
      heldLe := fun f ↦ ?_
      balance := fun c ↦ ?_
      waits := fun c ↦ ?_
      listens := fun q c hq ↦ ?_
      live := fun l hl ↦ ?_ }
  · have hqp : q ≠ p := fun h ↦ hq (h ▸ hfree.live)
    simpa [Function.update_of_ne hqp] using H.absent q hq
  · have hqp : q ≠ p := fun h ↦ hfree.idle (h ▸ hq)
    simpa [Function.update_of_ne hqp] using H.idle q hq
  · have htally := tally_modify H.nodup hfree.live (holds f) fun proc ↦
      { proc with id := id, call := some call, secured := false, family := some call.family }
    have hf := hheld' f
    rw [H.held f] at hf
    simp only [holds, hfree.family, reduceCtorEq, decide_false, Bool.toNat_false, Nat.add_zero,
      Option.some.injEq] at htally
    refine hf.trans (Eq.trans ?_ htally.symm)
    by_cases h : call.family = f <;> simp [h]
  · change bump s.held call.family 1 f ≤ _
    rw [hheld' f]
    split_ifs with hf
    · rw [← hf]
      exact hheld
    · exact H.heldLe f
  · have hbalance := H.balance c
    have htally := tally_modify H.nodup hfree.live (runs c) fun proc ↦
      { proc with id := id, call := some call, secured := false, family := some call.family }
    simp only [runs, hfree.call, reduceCtorEq, decide_false, Bool.toNat_false, Nat.add_zero,
      Option.some.injEq] at htally
    rw [List.count_cons] at hbalance
    refine Eq.trans (congrArg (fun n ↦ _ + n + _) htally) ?_
    rw [modify_answers, modify_waiting, modify_calls, ← hbalance]
    by_cases hc : call = c
    · simp only [hc, decide_true, Bool.toNat_true, beq_self_eq_true, if_true]
      omega
    · simp [hc]
  · rw [List.mem_append, List.mem_singleton]
    simpa using H.waits c
  · rw [List.mem_append, List.mem_singleton]
    by_cases hqp : q = p
    · subst hqp
      simp only [modify_proc, Function.update_self, Option.some.injEq] at hq
      exact .inr (by rw [hq])
    · simp only [modify_proc, Function.update_of_ne hqp] at hq
      exact .inl (H.listens q c hq)
  · rcases List.mem_append.mp hl with hl | hl
    · exact H.live l hl
    · rw [List.mem_singleton.mp hl]
      exact hlive

theorem startOn {call : Call} (H : Kept limits (call :: inHand) s) {p : ℕ} (hfree : Free p s)
    (hheld : s.held call.family < limits.maxProcessesPerFamily)
    (hlive : s.aborted call.signal = false) (launch : Launch) :
    Kept limits inHand (Egress.startOn launch call p s) := by
  rw [Egress.startOn]
  refine Kept.send ?_ ..
  have hassigned := (H.leaveIdle p).assign hfree.leaveIdle hheld hlive
    (nextExchangeId s.nextId)
  split_ifs
  · exact hassigned.modify p (f := fun proc ↦ { proc with connectTimer := some call })
      (fun _ ↦ rfl) (fun _ ↦ rfl) fun _ h ↦ h
  · exact hassigned

theorem start {call : Call} (H : Kept limits (call :: inHand) s)
    (hstart : canStart limits call.family s = true) (hlive : s.aborted call.signal = false)
    (launch : Launch) : Kept limits inHand (Egress.start launch call s) := by
  simp only [canStart, Bool.and_eq_true, Bool.or_eq_true, decide_eq_true_eq] at hstart
  rw [Egress.start]
  cases hlast : s.idle.getLast? with
  | some p =>
    have hsplit : s.idle = s.idle.dropLast ++ [p] :=
      (List.dropLast_append_getLast? p hlast).symm
    have hnodup := H.idleNodup
    rw [hsplit, List.nodup_append] at hnodup
    have hmem : ∀ q ∈ s.idle.dropLast, q ∈ s.idle := fun q hq ↦ List.dropLast_subset _ hq
    have hidle := H.idle p (List.mem_of_getLast? hlast)
    have H' : Kept limits (call :: inHand) { s with idle := s.idle.dropLast } :=
      { H with
        idle := fun q hq ↦ H.idle q (hmem q hq)
        idleNodup := hnodup.1 }
    refine H'.startOn ⟨hidle.1, hidle.2.1, hidle.2.2, fun h ↦ ?_⟩ hstart.1 hlive launch
    exact hnodup.2.2 p h p (List.mem_singleton_self p) rfl
  | none =>
    have hsize : s.processes.length < limits.maxProcesses := by
      rw [List.getLast?_eq_none_iff.mp hlast] at hstart
      simpa using hstart.2
    by_cases hspawned : launch.spawned = true
    · obtain ⟨H', hfree⟩ := H.spawnProcess hsize launch
      have hconfined := Confined.send s.nextProcess launch.init
        { s with
          processes := s.processes ++ [s.nextProcess]
          proc := Function.update s.proc s.nextProcess .spawned
          nextProcess := s.nextProcess + 1 }
      simp only [hspawned, if_true]
      refine H'.startOn hfree ?_ ?_ launch
      · exact (congrFun hconfined.held _).trans_lt hstart.1
      · exact (congrFun hconfined.aborted _).trans hlive
    · simp only [hspawned, Bool.false_eq_true, if_false]
      exact H.settle _

/-- A call that waits is taken off the queue, and is then in hand. -/
theorem dequeue (H : Kept limits inHand s) {l₁ l₂ : List Call} {call : Call}
    (hwaiting : s.waiting = l₁ ++ call :: l₂) :
    Kept limits (call :: inHand) (removeListener (.onWaitAbort call)
      { s with
        waiting := l₁ ++ l₂
        waitingByFamily := bump s.waitingByFamily call.family (-1) }) := by
  have hcount : ∀ c, s.waiting.count c = (l₁ ++ l₂).count c + (if call = c then 1 else 0) := by
    intro c
    rw [hwaiting, List.count_append, List.count_cons, List.count_append, beq_eq_decide]
    simp only [decide_eq_true_eq]
    omega
  have hnot : call ∉ l₁ ++ l₂ := by
    have hle := H.balance_le_one call
    have hself := hcount call
    rw [if_pos rfl] at hself
    exact List.count_eq_zero.mp (by omega)
  refine
    { H with
      waitingCount := fun f ↦ ?_
      balance := fun c ↦ ?_
      waits := fun c ↦ ?_
      listens := fun q c hq ↦ List.mem_filter.mpr ⟨H.listens q c hq, by simp⟩
      live := fun l hl ↦ H.live l (List.mem_filter.mp hl).1
      closed := fun hclosed ↦ ?_ }
  · have hf := H.waitingCount f
    rw [hwaiting, List.countP_append, List.countP_cons] at hf
    change bump s.waitingByFamily call.family (-1) f = (l₁ ++ l₂).countP _
    rw [List.countP_append, bump]
    by_cases h : call.family = f
    · subst h
      simp only [decide_true, if_true, Function.update_self] at hf ⊢
      omega
    · rw [Function.update_of_ne (Ne.symm h)]
      simpa [h] using hf
  · have hbalance := H.balance c
    rw [hcount] at hbalance
    rw [List.count_cons, beq_eq_decide]
    simp only [decide_eq_true_eq]
    change s.answers.countP _ + (l₁ ++ l₂).count c + tally (runs c) s + _ = s.calls.count c
    omega
  · change c ∈ l₁ ++ l₂ ↔ _
    rw [removeListener_listeners, List.mem_filter, ← H.waits c, hwaiting]
    by_cases hc : c = call
    · subst hc
      simpa using hnot
    · simp [hc]
  · have hnil := H.closed hclosed
    simp [hwaiting] at hnil

end Kept

end QAuth.Egress
