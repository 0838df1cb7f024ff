import QAuth.SignIn.RoundLimits

/-!
# Runs of the round limits

Any calls on the keys of one realm under one policy, at times that do not go back. A reservation
and the member of a round or of a start are drawn anew each time.
-/

namespace QAuth.SignIn

open RoundStore

variable {p : RoundLimitPolicy} {keys : RoundKeys} {now : ℕ} {store : RoundStore}
  {identifier : Option String} {reservation ip : String}

/-! ### What a reservation does -/

section Soft

@[simp] theorem ipSoft_onBucket {bucket : Option String} {f : BucketRow → BucketRow} :
    ipSoft p keys (store.onBucket bucket f) = ipSoft p keys store := by
  rw [ipSoft, ips_onBucket, ipSoft]

@[simp] theorem ipSoft_onClient {client : Option String} {f : ClientRow → ClientRow} :
    ipSoft p keys (store.onClient client f) = ipSoft p keys store := by
  rw [ipSoft, ips_onClient, ipSoft]

@[simp] theorem bucketSoft_onClient {client : Option String} {f : ClientRow → ClientRow} :
    bucketSoft p keys (store.onClient client f) = bucketSoft p keys store := by
  rw [bucketSoft, buckets_onClient, bucketSoft]

end Soft

/-- Whether the delay of the IP refuses a reservation. -/
def delayed (p : RoundLimitPolicy) (keys : RoundKeys) (now : ℕ) (store : RoundStore)
    (ip : String) : Bool :=
  now < (store.ips ip).pace &&
    (ipSoft p keys (pruned p keys now store) || bucketSoft p keys (pruned p keys now store))

/-- Whether the delay of the client does. -/
def clientDelayed (p : RoundLimitPolicy) (keys : RoundKeys) (now : ℕ) (store : RoundStore)
    (client : String) : Bool :=
  clientSoft p keys (pruned p keys now store) && now < (store.clients client).pace

theorem reserve_eq (hip : keys.ip = some ip) :
    reserveCredentialScript p keys now store identifier reservation =
      if now < (store.ips ip).block then
        (.refused .endUserIp ((store.ips ip).block - now) none, store)
      else if ((store.ips ip).prune p.endUserIp now).isFull p.endUserIp then
        (.refused .endUserIp (slot ((store.ips ip).prune p.endUserIp now).failures now
          p.endUserIp.windowMs p.endUserIp.hardFailures) none,
          store.onIp keys.ip (·.prune p.endUserIp now))
      else if delayed p keys now store ip then
        (.refused (if ipSoft p keys (pruned p keys now store) then .endUserIpDelay
          else .ipBucketDelay) ((store.ips ip).pace - now) none,
          (store.onIp keys.ip (·.prune p.endUserIp now)).onBucket keys.bucket
            (·.prune p.ipBucket now))
      else
        match keys.client.filter fun client ↦ clientDelayed p keys now store client with
        | some client =>
          (.refused .clientDelay ((store.clients client).pace - now) none, pruned p keys now store)
        | none =>
          (.admitted false,
            counted p keys now (pruned p keys now store) identifier reservation) := by
  have hdelayed : delayed p keys now store ip =
      (now < (store.ips ip).pace && (ipSoft p keys ((store.onIp keys.ip
        (·.prune p.endUserIp now)).onBucket keys.bucket (·.prune p.ipBucket now)) ||
      bucketSoft p keys ((store.onIp keys.ip (·.prune p.endUserIp now)).onBucket keys.bucket
        (·.prune p.ipBucket now)))) := by
    rw [delayed, pruned, ipSoft_onClient, bucketSoft_onClient]
  rw [reserveCredentialScript]
  simp only [hip, Option.filter_some, ips_onIp, ips_onBucket, if_true, IpRow.prune_pace,
    decide_eq_true_eq] at hdelayed ⊢
  rw [← hdelayed]
  by_cases hblock : now < (store.ips ip).block
  · rw [if_pos hblock, if_pos hblock]
  rw [if_neg hblock, if_neg hblock]
  by_cases hfull : ((store.ips ip).prune p.endUserIp now).isFull p.endUserIp = true
  · rw [if_pos hfull, if_pos hfull]
    dsimp only
    rw [if_pos rfl]
  rw [if_neg hfull, if_neg hfull]
  by_cases hpace : delayed p keys now store ip = true
  · rw [if_pos hpace, if_pos hpace]
    dsimp only
    rw [if_pos rfl, pruned, ipSoft_onClient, hip]
    rfl
  rw [if_neg hpace, if_neg hpace]
  rw [← hip, ← pruned]
  cases hclient : keys.client with
  | none => rfl
  | some client =>
    have hpaceClient : ((pruned p keys now store).clients client).pace =
        (store.clients client).pace := by
      rw [pruned, clients_onClient, clients_onBucket, clients_onIp, if_pos hclient,
        ClientRow.prune_pace]
    simp only [Option.filter_some, clientDelayed, hpaceClient]
    split_ifs with h
    · dsimp only
      rw [hpaceClient]
    · rfl

/-! ### Runs -/

/-- A call on the keys of a realm. -/
inductive RoundCall
  | admitRound (keys : RoundKeys) (member : String)
  | reserveCredential (keys : RoundKeys) (identifier : Option String) (reservation : String)
  | settleCredential (keys : RoundKeys) (identifier account : Option String)
      (outcome : CredentialRoundOutcome) (reservation : String)
  | reserveRegistrationStart (keys : RoundKeys) (member : String)

/-- What a call draws anew. -/
def RoundCall.drawn : RoundCall → Option String
  | .admitRound _ member => some member
  | .reserveCredential _ _ reservation => some reservation
  | .settleCredential .. => none
  | .reserveRegistrationStart _ member => some member

/-- Whether a script admitted. -/
def ScriptReply.isAdmitted : ScriptReply → Bool
  | .admitted _ => true
  | .refused .. => false

/-- Whether a call is admitted, and what it leaves; a settlement always is. -/
def RoundCall.perform (p : RoundLimitPolicy) (now : ℕ) (store : RoundStore) :
    RoundCall → Bool × RoundStore
  | .admitRound keys member =>
    let out := admitRoundScript p keys now store member
    (out.1.isAdmitted, out.2)
  | .reserveCredential keys identifier reservation =>
    let out := reserveCredentialScript p keys now store identifier reservation
    (out.1.isAdmitted, out.2)
  | .settleCredential keys identifier account outcome reservation =>
    (true, (settleCredentialScript p keys now store identifier account outcome reservation).2)
  | .reserveRegistrationStart keys member =>
    let out := registrationStartScript p keys now store member
    (out.1.isAdmitted, out.2)

/-- A call that was made, when, and whether it was admitted. -/
structure RoundEvent where
  now : ℕ
  call : RoundCall
  admitted : Bool

/-- The calls of a run, the last first: time does not go back, and no draw is repeated. -/
inductive RoundRun (p : RoundLimitPolicy) : List RoundEvent → RoundStore → Prop
  | empty : RoundRun p [] .empty
  | step {events : List RoundEvent} {store : RoundStore} (h : RoundRun p events store) {now : ℕ}
      {call : RoundCall} (hle : ∀ e ∈ events, e.now ≤ now)
      (hnew : ∀ e ∈ events, ∀ d, call.drawn = some d → e.call.drawn ≠ some d) :
      RoundRun p (⟨now, call, (call.perform p now store).1⟩ :: events)
        (call.perform p now store).2

/-- The reservations of an end-user IP that were admitted and not taken back, with their times. -/
def failedOf (ip : String) : List RoundEvent → List (String × ℕ)
  | [] => []
  | e :: events =>
    match e.call with
    | .reserveCredential keys _ reservation =>
      if keys.ip = some ip ∧ e.admitted then failedOf ip events ++ [(reservation, e.now)]
      else failedOf ip events
    | .settleCredential keys _ _ outcome reservation =>
      if keys.ip = some ip ∧ outcome ≠ .failure then
        (failedOf ip events).filter (·.1 ≠ reservation)
      else failedOf ip events
    | _ => failedOf ip events

theorem drawn_of_mem_failedOf {events : List RoundEvent} {entry : String × ℕ}
    (h : entry ∈ failedOf ip events) : ∃ e ∈ events, e.call.drawn = some entry.1 := by
  induction events with
  | nil => cases h
  | cons e events ih =>
    have hold : entry ∈ failedOf ip events → ∃ e' ∈ e :: events, e'.call.drawn = some entry.1 := by
      intro h
      obtain ⟨e', he', hdrawn⟩ := ih h
      exact ⟨e', List.mem_cons_of_mem _ he', hdrawn⟩
    rw [failedOf] at h
    split at h
    case h_1 keys identifier reservation hcall =>
      split_ifs at h with hadmitted
      · rcases List.mem_append.1 h with h | h
        · exact hold h
        · refine ⟨e, List.mem_cons_self, ?_⟩
          rw [hcall, List.mem_singleton.1 h, RoundCall.drawn]
      · exact hold h
    case h_2 =>
      split_ifs at h
      · exact hold (List.mem_of_mem_filter h)
      · exact hold h
    case h_3 => exact hold h

/-! ### The row of an IP -/

section IpRow

variable {member : String} {account : Option String} {outcome : CredentialRoundOutcome}

theorem ips_pruned (i : String) :
    (pruned p keys now store).ips i =
      if keys.ip = some i then (store.ips i).prune p.endUserIp now else store.ips i := by
  rw [pruned, ips_onClient, ips_onBucket, ips_onIp]

/-- A round prunes the row at most. -/
theorem ips_admitRound (i : String) :
    (admitRoundScript p keys now store member).2.ips i = store.ips i ∨
      (admitRoundScript p keys now store member).2.ips i =
        (store.ips i).prune p.endUserIp now := by
  rw [admitRoundScript]
  split
  · exact .inl rfl
  · dsimp only
    split
    · split <;> exact .inl (by simp)
    · dsimp only
      rw [ips_pruned, ips_onClient, ips_onClient]
      split
      · exact .inr rfl
      · exact .inl rfl

theorem ips_reserveCredential (hip : keys.ip = some ip) :
    let out := reserveCredentialScript p keys now store identifier reservation
    let row := (store.ips ip).prune p.endUserIp now
    out.1.isAdmitted = false ∧ (out.2.ips ip = store.ips ip ∨ out.2.ips ip = row) ∨
      out.1.isAdmitted = true ∧ row.block ≤ now ∧ row.isFull p.endUserIp = false ∧
        ∃ ipIsSoft bucketIsSoft,
          out.2.ips ip =
            row.count p.endUserIp now p.ipBucket ipIsSoft bucketIsSoft reservation := by
  dsimp only
  rw [reserve_eq hip]
  by_cases hblock : now < (store.ips ip).block
  · rw [if_pos hblock]
    exact .inl ⟨rfl, .inl rfl⟩
  rw [if_neg hblock]
  by_cases hfull : ((store.ips ip).prune p.endUserIp now).isFull p.endUserIp = true
  · rw [if_pos hfull]
    refine .inl ⟨rfl, .inr ?_⟩
    rw [ips_onIp, if_pos hip]
  rw [if_neg hfull]
  by_cases hpace : delayed p keys now store ip = true
  · rw [if_pos hpace]
    refine .inl ⟨rfl, .inr ?_⟩
    rw [ips_onBucket, ips_onIp, if_pos hip]
  rw [if_neg hpace]
  split
  · refine .inl ⟨rfl, .inr ?_⟩
    rw [ips_pruned, if_pos hip]
  · refine .inr ⟨rfl, Nat.le_of_not_lt hblock, Bool.eq_false_iff.2 hfull, ?_⟩
    refine ⟨ipSoft p keys (pruned p keys now store),
      bucketSoft p keys (pruned p keys now store), ?_⟩
    rw [counted, ips_onClient, ips_onBucket, ips_onIp, if_pos hip, ips_pruned, if_pos hip]

theorem ips_reserveCredential_of_ne {i : String} (hip : keys.ip ≠ some i) :
    (reserveCredentialScript p keys now store identifier reservation).2.ips i = store.ips i := by
  rw [reserveCredentialScript]
  split
  · rfl
  · dsimp only
    split
    · rw [ips_onIp, if_neg hip]
    · split
      · rw [ips_onBucket, ips_onIp, if_neg hip]
      · split
        · rw [ips_onClient, ips_onBucket, ips_onIp, if_neg hip]
        · rw [counted, ips_onClient, ips_onBucket, ips_onIp, if_neg hip, ips_onClient,
            ips_onBucket, ips_onIp, if_neg hip]

/-- A failure prunes the row and may block it or start its delay; any other settlement takes the
round back. -/
theorem ips_settleCredential (i : String) :
    let row := (store.ips i).prune p.endUserIp now
    (settleCredentialScript p keys now store identifier account outcome reservation).2.ips i =
      if keys.ip = some i then
        if outcome = .failure then
          if bucketSoft p keys (pruned p keys now store) then
            (row.fail p.endUserIp now).extend (now + p.ipBucket.delayMs)
          else row.fail p.endUserIp now
        else { store.ips i with failures := (store.ips i).failures.remove reservation }
      else store.ips i := by
  dsimp only
  rw [settleCredentialScript]
  by_cases hfailure : outcome = .failure
  · rw [if_pos hfailure, if_pos hfailure]
    dsimp only
    rw [ips_onClient, ips_onBucket, ips_onIp, ips_pruned]
    split <;> rfl
  · rw [if_neg hfailure, if_neg hfailure]
    dsimp only
    rw [ips_onClient, ips_onBucket, ips_onIp]

theorem ips_registrationStart :
    (registrationStartScript p keys now store member).2.ips = store.ips := by
  rw [registrationStartScript]
  split
  · simp
  · dsimp only
    split <;> simp

end IpRow

namespace RoundRun

variable {events : List RoundEvent} {last : ℕ}

/-- The log of an IP holds what was admitted in its window and not taken back, and no window holds
more than the hard limit. -/
theorem counts (hp : p.Sound) (h : RoundRun p events store) (ip : String) {last : ℕ}
    (hlast : ∀ e ∈ events, e.now ≤ last) :
    SlidingLog.Counts p.endUserIp.windowMs p.endUserIp.hardFailures last (failedOf ip events)
      (store.ips ip).failures := by
  induction h generalizing last with
  | empty => exact .empty
  | @step events store h now call hle hnew ih =>
    refine SlidingLog.Counts.later ?_ (hlast _ List.mem_cons_self)
    have hcounts := ih hle
    have hpruned := hcounts.prune le_rfl
    cases call with
    | admitRound keys member =>
      rw [failedOf, RoundCall.perform]
      dsimp only
      rcases @ips_admitRound p keys now store member ip with heq | heq <;> rw [heq]
      · exact hcounts
      · exact hpruned
    | reserveCredential keys identifier reservation =>
      rw [failedOf, RoundCall.perform]
      dsimp only
      by_cases hip : keys.ip = some ip
      · rcases @ips_reserveCredential p keys now store identifier reservation ip hip with
          ⟨hrefused, heq | heq⟩ | ⟨hadmitted, -, hfull, ipIsSoft, bucketIsSoft, heq⟩
        · rw [if_neg (by rw [hrefused]; simp), heq]
          exact hcounts
        · rw [if_neg (by rw [hrefused]; simp), heq]
          exact hpruned
        · rw [if_pos ⟨hip, hadmitted⟩, heq, IpRow.count_failures]
          refine hcounts.add le_rfl hp.ipWindow_pos (fun entry hentry heq ↦ ?_) ?_
          · obtain ⟨e, he, hdrawn⟩ := drawn_of_mem_failedOf hentry
            exact hnew e he reservation rfl (heq ▸ hdrawn)
          · exact Nat.lt_of_not_le (of_decide_eq_false hfull)
      · rw [if_neg fun h ↦ hip h.1, ips_reserveCredential_of_ne hip]
        exact hcounts
    | settleCredential keys identifier account outcome reservation =>
      rw [failedOf, RoundCall.perform]
      dsimp only
      rw [ips_settleCredential]
      by_cases hip : keys.ip = some ip
      · by_cases hfailure : outcome = .failure
        · rw [if_neg fun h ↦ h.2 hfailure, if_pos hip, if_pos hfailure]
          split
          · rw [IpRow.extend_failures, IpRow.fail_failures]
            exact hpruned
          · rw [IpRow.fail_failures]
            exact hpruned
        · rw [if_pos ⟨hip, hfailure⟩, if_pos hip, if_neg hfailure]
          exact hcounts.remove reservation
      · rw [if_neg fun h ↦ hip h.1, if_neg hip]
        exact hcounts
    | reserveRegistrationStart keys member =>
      rw [failedOf, RoundCall.perform]
      dsimp only
      rw [ips_registrationStart]
      exact hcounts

end RoundRun

end QAuth.SignIn
