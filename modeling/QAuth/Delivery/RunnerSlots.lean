import QAuth.Delivery.Runner

/-!
# The slots of a node

A node counts the attempts that run twice: by the size of its map, which holds them by delivery and
attempt, and by a counter for each destination. The counters are right in every run. The map is
right as long as no two attempts that run have one key, and two have one key only where a hold took
an attempt back, its answer is still on its way, and the row is claimed again: the attempt's number
is used twice.
-/

namespace QAuth.Delivery

open Events Transition

/-- The slots that the claim loop set aside for a destination. -/
def Fill.reservedAt : Fill → String → ℕ
  | .asking picks, key => limitOf picks key
  | .claimed claims _, key => claims.countP (·.key = key)
  | _, _ => 0

/-- The slots that the claim loop set aside. -/
def Fill.reserved : Fill → ℕ
  | .listing free => free
  | .asking picks => slots picks
  | .claimed claims _ => claims.length
  | _ => 0

namespace Runner

/-- The counters are right, and no destination has more than its share. -/
structure Slots (settings : DeliverySettings) (n : Runner) : Prop where
  fenced : n.queue.Fenced
  counters : ∀ key, n.perDestination key =
    if n.attemptsAt key = 0 then none else some (n.attemptsAt key)
  share : ∀ key, n.attemptsAt key + n.fill.reservedAt key ≤ settings.maxInFlightPerDestination
  keys : ∀ picks, n.fill = .asking picks → (picks.map (·.key)).Nodup
  serials : ((n.attempts ++ n.fill.claims).map (·.claim.serial)).Nodup
  serial_lt : ∀ r ∈ n.attempts ++ n.fill.claims, r.claim.serial < n.queue.serials
  held : ∀ r ∈ n.attempts ++ n.fill.claims, r.write ≠ .heldBack → r.claim ∈ n.queue.inFlight

/-- No two attempts have one key, and the map holds exactly the attempts that run. -/
structure Keys (settings : DeliverySettings) (n : Runner) : Prop where
  refs : ((n.attempts ++ n.fill.claims).map (·.claim.ref)).Nodup
  entries : n.inFlight = n.attempts.map fun r ↦ (r.claim.ref, r.claim.serial)
  total : n.attempts.length + n.fill.reserved ≤ settings.concurrency

variable {settings : DeliverySettings} {queueSettings : Settings} {me : ℕ} {n m : Runner}
  {r : Attempt}

/-! ### The claim loop's turns -/

/-- The same attempts, counted alike. -/
structure SameSlots (n m : Runner) : Prop where
  queue : m.queue = n.queue
  inFlight : m.inFlight = n.inFlight
  perDestination : m.perDestination = n.perDestination
  attempts : m.attempts = n.attempts

/-- The claim loop rests, or it asks for due destinations. -/
def Turned (settings : DeliverySettings) (n m : Runner) : Prop :=
  m.fill = .idle ∨
    n.inFlight.length < settings.concurrency ∧
      m.fill = .listing (settings.concurrency - n.inFlight.length)

theorem endRound_cases (settings : DeliverySettings) (n : Runner) :
    SameSlots n (n.endRound settings) ∧ Turned settings n (n.endRound settings) := by
  rw [endRound]
  split
  case isTrue h =>
    simp only [goesOn, Bool.and_eq_true, decide_eq_true_eq] at h
    exact ⟨⟨rfl, rfl, rfl, rfl⟩, .inr ⟨h.2.2, rfl⟩⟩
  case isFalse => exact ⟨⟨rfl, rfl, rfl, rfl⟩, .inl rfl⟩

theorem nextTurn_cases (settings : DeliverySettings) (n : Runner) :
    SameSlots n (n.nextTurn settings) ∧ Turned settings n (n.nextTurn settings) := by
  rw [nextTurn]
  split
  case isTrue h =>
    simp only [goesOn, Bool.and_eq_true, decide_eq_true_eq] at h
    exact ⟨⟨rfl, rfl, rfl, rfl⟩, .inr ⟨h.2, rfl⟩⟩
  case isFalse => exact endRound_cases settings n

theorem callFill_cases (settings : DeliverySettings) (n : Runner) :
    SameSlots n (n.callFill settings) ∧
      (Turned settings n (n.callFill settings) ∨ (n.callFill settings).fill = n.fill) := by
  rw [callFill]
  split
  case isTrue => exact ⟨⟨rfl, rfl, rfl, rfl⟩, .inr rfl⟩
  case isFalse h =>
    split
    case isTrue => exact ⟨⟨rfl, rfl, rfl, rfl⟩, .inr rfl⟩
    case isFalse =>
      obtain ⟨hsame, hturned⟩ := nextTurn_cases settings { n with fillAgain := false }
      exact ⟨⟨hsame.queue, hsame.inFlight, hsame.perDestination, hsame.attempts⟩, .inl hturned⟩

namespace Slots

theorem at_le (h : Slots settings n) (key : String) :
    n.attemptsAt key ≤ settings.maxInFlightPerDestination :=
  (Nat.le_add_right _ _).trans (h.share key)

theorem inFlightAt_eq (h : Slots settings n) (key : String) :
    n.inFlightAt key = n.attemptsAt key := by
  rw [inFlightAt, h.counters]
  split
  case isTrue hzero => exact hzero.symm
  case isFalse => rfl

/-- The counters depend on the attempts alone. -/
theorem congr (h : Slots settings n) (hsame : SameSlots n m)
    (hclaims : m.fill.claims.Sublist n.fill.claims)
    (hshare : ∀ key, n.attemptsAt key + m.fill.reservedAt key ≤ settings.maxInFlightPerDestination)
    (hkeys : ∀ picks, m.fill = .asking picks → (picks.map (·.key)).Nodup) : Slots settings m where
  fenced := hsame.queue ▸ h.fenced
  counters key := by
    rw [hsame.perDestination, attemptsAt, hsame.attempts]
    exact h.counters key
  share key := by
    rw [attemptsAt, hsame.attempts]
    exact hshare key
  keys := hkeys
  serials := by
    rw [hsame.attempts]
    exact h.serials.sublist ((List.Sublist.append (.refl _) hclaims).map _)
  serial_lt r hr := by
    rw [hsame.attempts] at hr
    rw [hsame.queue]
    exact h.serial_lt r ((List.Sublist.append (.refl _) hclaims).subset hr)
  held r hr := by
    rw [hsame.attempts] at hr
    rw [hsame.queue]
    exact h.held r ((List.Sublist.append (.refl _) hclaims).subset hr)

theorem turned (h : Slots settings n) (hsame : SameSlots n m) (hturned : Turned settings n m) :
    Slots settings m := by
  rcases hturned with hfill | ⟨-, hfill⟩
  · refine h.congr hsame ?_ (fun key ↦ ?_) fun picks hpicks ↦ ?_
    · rw [hfill]
      exact List.nil_sublist _
    · rw [hfill]
      exact h.at_le key
    · rw [hfill] at hpicks
      cases hpicks
  · refine h.congr hsame ?_ (fun key ↦ ?_) fun picks hpicks ↦ ?_
    · rw [hfill]
      exact List.nil_sublist _
    · rw [hfill]
      exact h.at_le key
    · rw [hfill] at hpicks
      cases hpicks

theorem callFill (h : Slots settings n) : Slots settings (n.callFill settings) := by
  obtain ⟨hsame, hturned | hfill⟩ := callFill_cases settings n
  · exact h.turned hsame hturned
  · refine h.congr hsame (by rw [hfill]) (fun key ↦ ?_) fun picks hpicks ↦
      h.keys picks (hfill ▸ hpicks)
    rw [hfill]
    exact h.share key

end Slots

namespace Keys

theorem length_inFlight (h : Keys settings n) : n.inFlight.length = n.attempts.length := by
  rw [h.entries, List.length_map]

theorem length_le (h : Keys settings n) : n.attempts.length ≤ settings.concurrency :=
  (Nat.le_add_right _ _).trans h.total

theorem refs_attempts (h : Keys settings n) : (n.attempts.map (·.claim.ref)).Nodup :=
  h.refs.sublist ((List.sublist_append_left _ _).map _)

theorem congr (h : Keys settings n) (hsame : SameSlots n m)
    (hclaims : m.fill.claims.Sublist n.fill.claims)
    (htotal : n.attempts.length + m.fill.reserved ≤ settings.concurrency) : Keys settings m where
  refs := by
    rw [hsame.attempts]
    exact h.refs.sublist ((List.Sublist.append (.refl _) hclaims).map _)
  entries := by
    rw [hsame.inFlight, hsame.attempts]
    exact h.entries
  total := by
    rw [hsame.attempts]
    exact htotal

theorem turned (h : Keys settings n) (hsame : SameSlots n m) (hturned : Turned settings n m) :
    Keys settings m := by
  have hlength := h.length_inFlight
  rcases hturned with hfill | ⟨hlt, hfill⟩
  · refine h.congr hsame ?_ ?_
    · rw [hfill]
      exact List.nil_sublist _
    · rw [hfill]
      exact h.length_le
  · refine h.congr hsame ?_ ?_
    · rw [hfill]
      exact List.nil_sublist _
    · rw [hfill, Fill.reserved]
      omega

theorem callFill (h : Keys settings n) : Keys settings (n.callFill settings) := by
  obtain ⟨hsame, hturned | hfill⟩ := callFill_cases settings n
  · exact h.turned hsame hturned
  · refine h.congr hsame (by rw [hfill]) ?_
    rw [hfill]
    exact h.total

end Keys

/-! ### The due destinations -/

section Listed

variable {free : ℕ} {due : List DueDestination} {picks : List EventDeliveryPick} {max : ℕ}
  {inFlightAt : String → ℕ}

/-- A destination without a pick has no slot, one with a pick has its slots. -/
theorem add_limitOf_le (hle : ∀ key, inFlightAt key ≤ max)
    (hshare : ∀ pick ∈ picks, inFlightAt pick.key + pick.limit ≤ max) (key : String) :
    inFlightAt key + limitOf picks key ≤ max := by
  rw [limitOf]
  cases hfind : picks.find? (·.key = key) with
  | none => exact hle key
  | some pick =>
    have hkey : pick.key = key := by simpa using List.find?_some hfind
    have := hshare pick (List.mem_of_find?_eq_some hfind)
    rw [hkey] at this
    exact this

theorem listed_cases (n : Runner) (free : ℕ) (due : List DueDestination) :
    (SameSlots n (n.listed settings free due) ∧ Turned settings n (n.listed settings free due)) ∨
      SameSlots n (n.listed settings free due) ∧
        ∃ order, (n.listed settings free due).fill = .asking
          (handOut settings.maxInFlightPerDestination n.inFlightAt order free ⟨[], free, true⟩) := by
  rw [listed]
  dsimp only
  split
  · exact .inl (endRound_cases settings n)
  · exact .inr ⟨⟨rfl, rfl, rfl, rfl⟩, _, rfl⟩

/-- Nothing is handed out at first. -/
theorem room_nil (max : ℕ) (inFlightAt : String → ℕ) (free : ℕ) :
    Room max inFlightAt free ⟨[], free, true⟩ :=
  ⟨List.nodup_nil, nofun, Nat.zero_add _⟩

theorem Slots.listed (h : Slots settings n) : Slots settings (n.listed settings free due) := by
  rcases @listed_cases settings n free due with
    ⟨hsame, hturned⟩ | ⟨hsame, order, hfill⟩
  · exact h.turned hsame hturned
  · obtain ⟨hkeys, hshare, -⟩ := @room_handOut _ _ _ _ order free
      (room_nil settings.maxInFlightPerDestination n.inFlightAt free)
    refine h.congr hsame ?_ (fun key ↦ ?_) fun picks hpicks ↦ ?_
    · rw [hfill]
      exact List.nil_sublist _
    · rw [hfill, ← h.inFlightAt_eq]
      exact add_limitOf_le (fun key ↦ (h.inFlightAt_eq key).trans_le (h.at_le key)) hshare key
    · obtain rfl := Fill.asking.inj (hfill.symm.trans hpicks)
      exact hkeys

theorem Keys.listed (h : Keys settings n) (hfill : n.fill = .listing free) :
    Keys settings (n.listed settings free due) := by
  rcases @listed_cases settings n free due with
    ⟨hsame, hturned⟩ | ⟨hsame, order, hasking⟩
  · exact h.turned hsame hturned
  · obtain ⟨-, -, hslots⟩ := @room_handOut _ _ _ _ order free
      (room_nil settings.maxInFlightPerDestination n.inFlightAt free)
    have htotal := h.total
    rw [hfill, Fill.reserved] at htotal
    refine h.congr hsame ?_ ?_
    · rw [hasking]
      exact List.nil_sublist _
    · rw [hasking, Fill.reserved]
      omega

end Listed

/-! ### Attempts that begin and end -/

section Attempts

variable {claims rs : List Attempt} {asked : ℕ}

theorem attemptsAt_begin (key : String) :
    (n.begin r).attemptsAt key = n.attemptsAt key + if r.key = key then 1 else 0 := by
  rw [attemptsAt, attemptsAt, begin, List.countP_append, List.countP_singleton]
  simp

/-- An attempt that begins takes the slot that was set aside for it. -/
theorem Slots.begin (h : Slots settings { n with fill := .claimed (r :: rs) asked }) :
    Slots settings { n.begin r with fill := .claimed rs asked } where
  fenced := h.fenced
  counters key := by
    have hn := h.counters
    show Function.update n.perDestination r.key (some (n.inFlightAt r.key + 1)) key =
      if (n.begin r).attemptsAt key = 0 then none else some ((n.begin r).attemptsAt key)
    rw [attemptsAt_begin]
    by_cases hkey : r.key = key
    · subst hkey
      have hat : n.inFlightAt r.key = n.attemptsAt r.key := h.inFlightAt_eq r.key
      rw [Function.update_self, if_pos rfl, hat, if_neg (Nat.succ_ne_zero _)]
    · rw [Function.update_of_ne (Ne.symm hkey), if_neg hkey, Nat.add_zero]
      exact hn key
  share key := by
    have := h.share key
    show (n.begin r).attemptsAt key + rs.countP (·.key = key) ≤ _
    simp only [Fill.reservedAt, List.countP_cons, decide_eq_true_eq] at this
    rw [attemptsAt_begin]
    have hat : n.attemptsAt key = Runner.attemptsAt { n with fill := .claimed (r :: rs) asked } key :=
      rfl
    omega
  keys := nofun
  serials := by
    show (((n.attempts ++ [r]) ++ rs).map (·.claim.serial)).Nodup
    rw [List.append_assoc]
    exact h.serials
  serial_lt q hq := h.serial_lt q (by simpa [Fill.claims, Runner.begin] using hq)
  held q hq := h.held q (by simpa [Fill.claims, Runner.begin] using hq)

theorem Keys.begin (h : Keys settings { n with fill := .claimed (r :: rs) asked }) :
    Keys settings { n.begin r with fill := .claimed rs asked } where
  refs := by
    show (((n.attempts ++ [r]) ++ rs).map (·.claim.ref)).Nodup
    rw [List.append_assoc]
    exact h.refs
  entries := by
    have hentries : n.inFlight = n.attempts.map fun r ↦ (r.claim.ref, r.claim.serial) := h.entries
    have hrefs : ((n.attempts ++ r :: rs).map (·.claim.ref)).Nodup := h.refs
    show Table.upsert n.inFlight r.claim.ref r.claim.serial =
      (n.attempts ++ [r]).map fun r ↦ (r.claim.ref, r.claim.serial)
    rw [Table.upsert, List.map_append, hentries]
    congr 1
    refine List.filter_eq_self.mpr fun entry hentry ↦ decide_eq_true fun heq ↦ ?_
    obtain ⟨q, hq, rfl⟩ := List.mem_map.mp hentry
    rw [List.map_append, List.nodup_append] at hrefs
    exact hrefs.2.2 _ (List.mem_map_of_mem hq) _ (List.mem_map_of_mem List.mem_cons_self) heq
  total := by
    have := h.total
    simp only [Fill.reserved, List.length_cons] at this
    show (n.attempts ++ [r]).length + rs.length ≤ _
    rw [List.length_append, List.length_singleton]
    omega

theorem Slots.foldl_begin (h : Slots settings { n with fill := .claimed claims asked }) :
    Slots settings { claims.foldl Runner.begin n with fill := .claimed [] asked } := by
  induction claims generalizing n with
  | nil => exact h
  | cons r rs ih => exact ih (n := n.begin r) h.begin

theorem Keys.foldl_begin (h : Keys settings { n with fill := .claimed claims asked }) :
    Keys settings { claims.foldl Runner.begin n with fill := .claimed [] asked } := by
  induction claims generalizing n with
  | nil => exact h
  | cons r rs ih => exact ih (n := n.begin r) h.begin

theorem attemptsAt_settled (hr : r ∈ n.attempts) (key : String) :
    (n.settled r).attemptsAt key = n.attemptsAt key - if r.key = key then 1 else 0 := by
  rw [attemptsAt, attemptsAt, settled, List.countP_erase]
  simp [hr]

/-- An attempt that ends gives back one slot. -/
theorem Slots.settled (h : Slots settings n) (hr : r ∈ n.attempts) :
    Slots settings (n.settled r) where
  fenced := h.fenced
  counters key := by
    rw [attemptsAt_settled hr]
    show Function.update n.perDestination r.key _ key = _
    by_cases hkey : r.key = key
    · subst hkey
      have hpos : 0 < n.attemptsAt r.key := List.countP_pos_iff.mpr ⟨r, hr, by simp⟩
      have hcounter : n.perDestination r.key = some (n.attemptsAt r.key) := by
        rw [h.counters, if_neg (by omega)]
      rw [Function.update_self, hcounter, if_pos rfl, Option.getD_some]
      by_cases hone : n.attemptsAt r.key - 1 = 0
      · rw [if_pos hone, if_neg (by omega)]
      · rw [if_neg hone, if_pos (by omega)]
    · rw [Function.update_of_ne (Ne.symm hkey), if_neg hkey, Nat.sub_zero]
      exact h.counters key
  share key := by
    rw [attemptsAt_settled hr]
    exact (Nat.add_le_add_right (Nat.sub_le _ _) _).trans (h.share key)
  keys := h.keys
  serials := h.serials.sublist ((List.Sublist.append List.erase_sublist (.refl _)).map _)
  serial_lt q hq := h.serial_lt q ((List.Sublist.append List.erase_sublist (.refl _)).subset hq)
  held q hq := h.held q ((List.Sublist.append List.erase_sublist (.refl _)).subset hq)

theorem Keys.settled (h : Keys settings n) (hr : r ∈ n.attempts) :
    Keys settings (n.settled r) where
  refs := h.refs.sublist ((List.Sublist.append List.erase_sublist (.refl _)).map _)
  entries := by
    have hnodup : n.attempts.Nodup := List.Nodup.of_map _ h.refs_attempts
    show n.inFlight.filter (·.1 ≠ r.claim.ref) =
      (n.attempts.erase r).map fun r ↦ (r.claim.ref, r.claim.serial)
    rw [h.entries, List.filter_map, hnodup.erase_eq_filter]
    congr 1
    refine List.filter_congr fun q hq ↦ ?_
    rw [Function.comp_apply, bne, Bool.eq_iff_iff]
    simp only [decide_eq_true_eq, Bool.not_eq_true', beq_eq_false_iff_ne]
    exact ⟨fun hne heq ↦ hne (heq ▸ rfl),
      fun hne heq ↦ hne (Table.eq_of_key_eq h.refs_attempts hq hr heq)⟩
  total := by
    have := h.total
    show (n.attempts.erase r).length + n.fill.reserved ≤ _
    rw [List.length_erase_of_mem hr]
    omega

theorem attempts_foldl_settled :
    (rs.foldl Runner.settled n).attempts = n.attempts.diff rs := by
  induction rs generalizing n with
  | nil => rfl
  | cons r rs ih => rw [List.foldl_cons, ih, List.diff_cons]; rfl

theorem queue_foldl_settled : (rs.foldl Runner.settled n).queue = n.queue := by
  induction rs generalizing n with
  | nil => rfl
  | cons r rs ih => rw [List.foldl_cons, ih]; rfl

theorem fill_foldl_settled : (rs.foldl Runner.settled n).fill = n.fill := by
  induction rs generalizing n with
  | nil => rfl
  | cons r rs ih => rw [List.foldl_cons, ih]; rfl

theorem subperm_erase_of_cons {l : List Attempt} (h : (r :: rs).Subperm l) :
    rs.Subperm (l.erase r) := by
  simpa using h.erase r

theorem Slots.foldl_settled (h : Slots settings n) (hrs : rs.Subperm n.attempts) :
    Slots settings (rs.foldl Runner.settled n) := by
  induction rs generalizing n with
  | nil => exact h
  | cons r rs ih =>
    have hr : r ∈ n.attempts := hrs.subset List.mem_cons_self
    exact ih (h.settled hr) (subperm_erase_of_cons hrs)

theorem Keys.foldl_settled (h : Keys settings n) (hrs : rs.Subperm n.attempts) :
    Keys settings (rs.foldl Runner.settled n) := by
  induction rs generalizing n with
  | nil => exact h
  | cons r rs ih =>
    have hr : r ∈ n.attempts := hrs.subset List.mem_cons_self
    exact ih (h.settled hr) (subperm_erase_of_cons hrs)

end Attempts

/-! ### The claim -/

section Claim

variable {events : List Event} {request : EventDeliveryClaimRequest} {locked : List Uuid}
  {t : List EventDelivery} {serials now : ℕ} {picks : List EventDeliveryPick}

/-- The claims that the node is told of are those of the queue. -/
theorem claims_claimedAttempts (me : ℕ) (events : List Event)
    (request : EventDeliveryClaimRequest) (locked : List Uuid) (t : List EventDelivery)
    (serials : ℕ) :
    (claimedAttempts me (claimedRows events request locked t) serials).map (·.claim) =
      Queue.newClaims me serials (claimRefs events request locked t) := by
  have hrefs : claimRefs events request locked t =
      (claimedRows events request locked t).map fun r ↦ ⟨r.id, r.attemptCount⟩ := rfl
  rw [claimedAttempts, Queue.newClaims, hrefs, List.zipIdx_map, List.map_map, List.map_map]
  rfl

theorem countP_claimedAttempts (rows : List EventDelivery) (key : String) :
    (claimedAttempts me rows serials).countP (·.key = key) =
      rows.countP fun r ↦ destinationKey r.destinationKind r.destinationId = key := by
  have hkeys : (claimedAttempts me rows serials).map (·.key) =
      rows.map fun r ↦ destinationKey r.destinationKind r.destinationId := by
    rw [claimedAttempts, List.map_map]
    conv_rhs => rw [← List.zipIdx_map_fst serials rows, List.map_map]
    rfl
  have hcount := congrArg (List.countP fun k ↦ decide (k = key)) hkeys
  rw [List.countP_map, List.countP_map] at hcount
  exact hcount

theorem length_claimedAttempts (rows : List EventDelivery) :
    (claimedAttempts me rows serials).length = rows.length := by
  rw [claimedAttempts, List.length_map, List.length_zipIdx]

theorem ids_claimedRows (hids : (t.map (·.id)).Nodup) :
    ((claimedRows events request locked t).map (·.id)).Nodup := by
  have hclaim : ((claim events request locked t).map (·.id)).Nodup := by
    rwa [ids_eq_of_origins claim_origins]
  exact hclaim.sublist (List.filter_sublist.map _)

theorem exists_pick_of_mem_claimedRows (hids : (t.map (·.id)).Nodup) {row : EventDelivery}
    (h : row ∈ claimedRows events request locked t) :
    row.id ∈ picked events request locked t ∧ ∃ pick ∈ request.picks,
      pick.key = destinationKey row.destinationKind row.destinationId ∧
      row.id ∈ ((Table.orderBy (·.nextAttemptAt)
        (t.filter (due events request.now locked pick))).take pick.limit).map (·.id) := by
  obtain ⟨hmem, hp⟩ := List.mem_filter.mp h
  simp only [Bool.and_eq_true, List.contains_iff_mem] at hp
  refine ⟨hp.1.1, ?_⟩
  obtain ⟨pick, hpick, hid⟩ := List.mem_flatMap.mp hp.1.1
  obtain ⟨row₀, hrow₀, hideq⟩ := List.mem_map.mp hid
  obtain ⟨hmem₀, hdue⟩ := List.mem_filter.mp (Table.mem_orderBy.mp (List.mem_of_mem_take hrow₀))
  simp only [due, Bool.and_eq_true, decide_eq_true_eq] at hdue
  refine ⟨pick, List.mem_of_mem_filter hpick, ?_, hid⟩
  have horigins : (claim events request locked t).map (·.origin) = t.map (·.origin) :=
    claim_origins
  have horigin : row.origin ∈ t.map (·.origin) := horigins ▸ List.mem_map_of_mem hmem
  obtain ⟨row₁, hmem₁, horigin⟩ := List.mem_map.mp horigin
  simp only [EventDelivery.origin, EventDelivery.key, Prod.mk.injEq] at horigin
  obtain rfl : row₁ = row₀ := Table.eq_of_key_eq hids hmem₁ hmem₀ (horigin.1.trans hideq.symm)
  rw [← horigin.2.1.2.1, ← horigin.2.1.2.2, hdue.1.1.1.1.1, hdue.1.1.1.1.2, EventDeliveryPick.key]

theorem countP_claimedRows_le (events : List Event) (locked : List Uuid)
    (request : EventDeliveryClaimRequest) (hids : (t.map (·.id)).Nodup)
    (hkeys : (request.picks.map (·.key)).Nodup) (key : String) :
    (claimedRows events request locked t).countP
        (fun r ↦ destinationKey r.destinationKind r.destinationId = key) ≤
      limitOf request.picks key := by
  rw [List.countP_eq_length_filter]
  set rows := (claimedRows events request locked t).filter
    fun r ↦ destinationKey r.destinationKind r.destinationId = key with hrows
  have hrow : ∀ row ∈ rows, row ∈ claimedRows events request locked t ∧
      destinationKey row.destinationKind row.destinationId = key := fun row hmem ↦
    ⟨List.mem_of_mem_filter hmem, of_decide_eq_true (List.mem_filter.mp hmem).2⟩
  cases hne : rows with
  | nil => exact Nat.zero_le _
  | cons first rest =>
    rw [← hne]
    obtain ⟨hfirst, hfirstkey⟩ := hrow first (hne ▸ List.mem_cons_self)
    obtain ⟨-, pick, hpick, hpickkey, -⟩ := exists_pick_of_mem_claimedRows hids hfirst
    have hkey : pick.key = key := hpickkey.trans hfirstkey
    have hsubset : rows.map (·.id) ⊆ ((Table.orderBy (·.nextAttemptAt)
        (t.filter (due events request.now locked pick))).take pick.limit).map (·.id) := by
      intro id hid
      obtain ⟨row, hmem, rfl⟩ := List.mem_map.mp hid
      obtain ⟨hclaimed, hrowkey⟩ := hrow row hmem
      obtain ⟨-, pick', hpick', hpickkey', hid'⟩ := exists_pick_of_mem_claimedRows hids hclaimed
      have heq : pick' = pick := Table.eq_of_key_eq hkeys hpick' hpick
        (hpickkey'.trans (hrowkey.trans hkey.symm))
      rwa [heq] at hid'
    have hnodup : (rows.map (·.id)).Nodup :=
      (ids_claimedRows hids).sublist (List.filter_sublist.map _)
    have hlength := (List.subperm_of_subset hnodup hsubset).length_le
    rw [List.length_map, List.length_map, List.length_take] at hlength
    rw [← hkey, limitOf_of_mem hkeys hpick]
    omega

theorem length_claimedRows_le (hids : (t.map (·.id)).Nodup) :
    (claimedRows events request locked t).length ≤ slots request.picks := by
  have hsubset : (claimedRows events request locked t).map (·.id) ⊆
      picked events request locked t := by
    intro id hid
    obtain ⟨row, hrow, rfl⟩ := List.mem_map.mp hid
    exact (exists_pick_of_mem_claimedRows hids hrow).1
  have hlength := (List.subperm_of_subset (ids_claimedRows hids) hsubset).length_le
  rw [List.length_map] at hlength
  refine hlength.trans ?_
  rw [picked, List.length_flatMap, slots]
  have hsum : ∀ ps : List EventDeliveryPick,
      ((ps.filter (0 < ·.limit)).map fun pick ↦
        (((Table.orderBy (·.nextAttemptAt) (t.filter (due events request.now locked pick))).take
          pick.limit).map (·.id)).length).sum ≤ (ps.map (·.limit)).sum := by
    intro ps
    induction ps with
    | nil => exact le_rfl
    | cons p ps ih =>
      rw [List.filter_cons, List.map_cons, List.sum_cons]
      split
      · rw [List.map_cons, List.sum_cons, List.length_map, List.length_take]
        omega
      · omega
  exact hsum request.picks

theorem exists_of_mem_claimRefs {ref : EventDeliveryClaimRef}
    (h : ref ∈ claimRefs events request locked t) :
    ∃ row ∈ t, row.id ∈ picked events request locked t ∧ ref = ⟨row.id, row.attemptCount + 1⟩ := by
  obtain ⟨r, hr, rfl⟩ := List.mem_map.mp h
  obtain ⟨hmem, hp⟩ := List.mem_filter.mp hr
  simp only [Bool.and_eq_true, List.contains_iff_mem, decide_eq_true_eq] at hp
  rcases claim_cases hmem with ⟨-, hout⟩ | ⟨row, hrow, hpicked, rfl⟩
  · exact absurd hp.1.1 hout
  · refine ⟨row, hrow, hpicked, ?_⟩
    have hpending := hp.1.2
    simp only [claimRow] at hpending ⊢
    split at hpending
    case isTrue hlt => rw [if_pos hlt]
    case isFalse => cases hpending

end Claim

/-! ### The steps -/

section Steps

variable {now : ℕ} {locked : List Uuid} {picks : List EventDeliveryPick} {claims : List Attempt}
  {asked : ℕ} {q : Queue} {c : InFlight}

/-- A claim that an action does not name stays in the queue. -/
theorem mem_of_step {a : Action} {s t : Queue} (h : s.step queueSettings a = some t)
    (hc : c ∈ s.inFlight) (hnot : c ∉ a.claims) : c ∈ t.inFlight := by
  cases a with
  | writer a =>
    obtain ⟨log, -, rfl⟩ := Option.map_eq_some_iff.mp h
    exact hc
  | fanOut a =>
    obtain ⟨fan, -, rfl⟩ := Option.map_eq_some_iff.mp h
    exact hc
  | worker a =>
    rw [Queue.step] at h
    cases a with
    | claim worker request locked =>
      simp only [Queue.stepWorker, Option.ite_none_right_eq_some, Option.some.injEq] at h
      obtain ⟨-, rfl⟩ := h
      exact List.mem_append_left _ hc
    | finish c' outcome now retryDelayMs =>
      simp only [Queue.stepWorker, Option.ite_none_right_eq_some, Option.some.injEq] at h
      obtain ⟨-, rfl⟩ := h
      refine Table.mem_updateWhere_of_false hc (decide_eq_false ?_)
      simpa [Action.claims] using hnot
    | giveUp claims =>
      simp only [Queue.stepWorker, Option.ite_none_right_eq_some, Option.some.injEq] at h
      obtain ⟨-, rfl⟩ := h
      refine Table.mem_updateWhere_of_false hc ?_
      simpa [Action.claims] using hnot
    | record c' =>
      simp only [Queue.stepWorker] at h
      split at h
      case h_1 =>
        simp only [Option.ite_none_right_eq_some, Option.some.injEq] at h
        obtain ⟨-, rfl⟩ := h
        exact List.mem_filter.mpr ⟨hc, by simpa [Action.claims] using hnot⟩
      case h_2 => cases h
    | release claims now =>
      simp only [Queue.stepWorker, Option.ite_none_right_eq_some, Option.some.injEq] at h
      obtain ⟨-, rfl⟩ := h
      exact List.mem_filter.mpr ⟨hc, by simpa [Action.claims] using hnot⟩
    | lose c' =>
      simp only [Queue.stepWorker, Option.ite_none_right_eq_some, Option.some.injEq] at h
      obtain ⟨-, rfl⟩ := h
      exact List.mem_filter.mpr ⟨hc, by simpa [Action.claims] using hnot⟩

/-- The same node over another state of the store. -/
theorem Slots.withQueue (h : Slots settings n) (hq : q.Fenced)
    (hserials : n.queue.serials ≤ q.serials)
    (hheld : ∀ r ∈ n.attempts ++ n.fill.claims, r.write ≠ .heldBack → r.claim ∈ q.inFlight) :
    Slots settings { n with queue := q } :=
  ⟨hq, h.counters, h.share, h.keys, h.serials,
    fun r hr ↦ (h.serial_lt r hr).trans_le hserials, hheld⟩

theorem Keys.withQueue (h : Keys settings n) : Keys settings { n with queue := q } :=
  ⟨h.refs, h.entries, h.total⟩

/-- Two attempts have two claims. -/
theorem Slots.claim_ne (h : Slots settings n) {r r' : Attempt}
    (hr : r ∈ n.attempts ++ n.fill.claims) (hr' : r' ∈ n.attempts ++ n.fill.claims)
    (hne : r ≠ r') : r.claim ≠ r'.claim := fun heq ↦
  hne (Table.eq_of_key_eq h.serials hr hr' (congrArg InFlight.serial heq))

theorem claimAtStore_cases {t : Runner}
    (h : n.claimAtStore settings queueSettings me picks now locked = some t) :
    ∃ q, n.queue.step queueSettings (.worker (.claim me (request settings picks now) locked)) =
        some q ∧
      t = { n with
        queue := q
        fill := .claimed (claimedAttempts me (claimedRows n.queue.fan.log.events
          (request settings picks now) locked n.queue.fan.deliveries) n.queue.serials)
          (slots picks) } := by
  obtain ⟨q, hq, rfl⟩ := Option.map_eq_some_iff.mp h
  exact ⟨q, hq, rfl⟩

theorem inFlight_of_claim {request : EventDeliveryClaimRequest} {s t : Queue}
    (h : s.step queueSettings (.worker (.claim me request locked)) = some t) :
    t.inFlight = s.inFlight ++
        (claimedAttempts me (claimedRows s.fan.log.events request locked s.fan.deliveries)
          s.serials).map (·.claim) ∧
      t.serials = s.serials +
        (claimRefs s.fan.log.events request locked s.fan.deliveries).length := by
  rw [claims_claimedAttempts]
  rw [Queue.step] at h
  simp only [Queue.stepWorker, Option.ite_none_right_eq_some, Option.some.injEq] at h
  obtain ⟨-, rfl⟩ := h
  exact ⟨rfl, rfl⟩

theorem Slots.claimAtStore {t : Runner} (h : Slots settings n) (hfill : n.fill = .asking picks)
    (hstep : n.claimAtStore settings queueSettings me picks now locked = some t) :
    Slots settings t := by
  obtain ⟨q, hq, rfl⟩ := claimAtStore_cases hstep
  obtain ⟨hinFlight, -⟩ := inFlight_of_claim hq
  have hfenced := h.fenced.step hq
  have hserials := hfenced.serials
  have hnone : n.fill.claims = [] := by
    rw [hfill]
    rfl
  have hattempts := h.serials
  rw [hnone, List.append_nil] at hattempts
  set new := claimedAttempts me (claimedRows n.queue.fan.log.events (request settings picks now)
    locked n.queue.fan.deliveries) n.queue.serials with hnew
  have hnewclaims : ∀ r ∈ new, r.claim ∈ q.inFlight := fun r hr ↦
    hinFlight ▸ List.mem_append_right _ (List.mem_map_of_mem hr)
  have hnewserial : ∀ r ∈ new, n.queue.serials ≤ r.claim.serial := by
    intro r hr
    have hmem : r.claim ∈ new.map (·.claim) := List.mem_map_of_mem hr
    rw [hnew, claims_claimedAttempts] at hmem
    exact (Queue.serial_of_mem_newClaims hmem).1
  have hold : ∀ r ∈ n.attempts, r.claim.serial < n.queue.serials := fun r hr ↦
    h.serial_lt r (List.mem_append_left _ hr)
  refine ⟨hfenced, h.counters, fun key ↦ ?_, nofun, ?_, ?_, ?_⟩
  · have hshare := h.share key
    rw [hfill, Fill.reservedAt] at hshare
    have hcount := countP_claimedRows_le n.queue.fan.log.events locked (request settings picks now)
      h.fenced.ids (h.keys picks hfill) key
    rw [Fill.reservedAt, hnew, countP_claimedAttempts]
    exact (Nat.add_le_add_left hcount _).trans hshare
  · show ((n.attempts ++ new).map (·.claim.serial)).Nodup
    rw [hinFlight, List.map_append, List.nodup_append, List.map_map] at hserials
    rw [List.map_append, List.nodup_append]
    refine ⟨hattempts, hserials.2.1, ?_⟩
    intro i hi j hj heq
    obtain ⟨r, hr, rfl⟩ := List.mem_map.mp hi
    obtain ⟨r', hr', rfl⟩ := List.mem_map.mp hj
    have := hold r hr
    have := hnewserial r' hr'
    omega
  · intro r hr
    rcases List.mem_append.mp hr with hr | hr
    · exact (hold r hr).trans_le (Queue.serials_le hq)
    · exact hfenced.serial_lt r.claim (hnewclaims r hr)
  · intro r hr hwrite
    rcases List.mem_append.mp hr with hr | hr
    · exact hinFlight ▸ List.mem_append_left _ (h.held r (List.mem_append_left _ hr) hwrite)
    · exact hnewclaims r hr

/-- A claim's keys are new, unless a hold of the node used one before and its answer is not there
yet. -/
theorem Keys.claimAtStore {t : Runner} (h : Keys settings n) (hslots : Slots settings n)
    (hfill : n.fill = .asking picks)
    (hholds : n.HoldsAnswered settings (.claim now locked))
    (hstep : n.claimAtStore settings queueSettings me picks now locked = some t) :
    Keys settings t := by
  obtain ⟨q, hq, rfl⟩ := claimAtStore_cases hstep
  obtain ⟨hinFlight, -⟩ := inFlight_of_claim hq
  have hrefs := (hslots.fenced.step hq).refs
  have hnewrefs : (claimedAttempts me (claimedRows n.queue.fan.log.events
      (request settings picks now) locked n.queue.fan.deliveries) n.queue.serials).map
        (·.claim.ref) = claimRefs n.queue.fan.log.events (request settings picks now) locked
          n.queue.fan.deliveries := by
    have := congrArg (List.map InFlight.ref) (claims_claimedAttempts me n.queue.fan.log.events
      (request settings picks now) locked n.queue.fan.deliveries n.queue.serials)
    rwa [List.map_map, Queue.newClaims_refs] at this
  set new := claimedAttempts me (claimedRows n.queue.fan.log.events (request settings picks now)
    locked n.queue.fan.deliveries) n.queue.serials with hnew
  rw [hinFlight, List.map_append, List.map_map, List.nodup_append] at hrefs
  refine ⟨?_, h.entries, ?_⟩
  · show ((n.attempts ++ new).map (·.claim.ref)).Nodup
    rw [List.map_append, List.nodup_append]
    refine ⟨h.refs_attempts, hrefs.2.1, ?_⟩
    rintro ref hold _ hmem rfl
    obtain ⟨r, hr, rfl⟩ := List.mem_map.mp hold
    by_cases hwrite : r.write = .heldBack
    · rw [hnewrefs] at hmem
      obtain ⟨row, hrow, hpicked, heq⟩ := exists_of_mem_claimRefs hmem
      simp only [HoldsAnswered, hfill] at hholds
      exact hholds r hr hwrite row hrow hpicked heq
    · have hheld := hslots.held r (List.mem_append_left _ hr) hwrite
      exact hrefs.2.2 _ (List.mem_map_of_mem hheld) _ hmem rfl
  · have htotal := h.total
    rw [hfill, Fill.reserved] at htotal
    show n.attempts.length + new.length ≤ _
    have hlength : new.length ≤ slots picks := by
      rw [hnew, length_claimedAttempts]
      exact length_claimedRows_le hslots.fenced.ids
    omega

theorem claimAnswered_cases {t : Runner}
    (h : n.claimAnswered settings queueSettings claims asked = some t) :
    (SameSlots { claims.foldl Runner.begin n with fill := .claimed [] asked } t ∧
        Turned settings { claims.foldl Runner.begin n with fill := .claimed [] asked } t) ∨
      (SameSlots n t ∧ Turned settings n t) ∨
        ∃ q, n.queue.step queueSettings (.worker (.giveUp (claims.map (·.claim)))) = some q ∧
          t = { n with queue := q, fill := .releasing } := by
  have hfold : ∀ (rs : List Attempt) (m : Runner) (f : Fill),
      rs.foldl Runner.begin { m with fill := f } = { rs.foldl Runner.begin m with fill := f } := by
    intro rs
    induction rs with
    | nil => exact fun m f ↦ rfl
    | cons r rs ih => exact fun m f ↦ ih (m.begin r) f
  rw [claimAnswered] at h
  split at h
  case isTrue =>
    left
    dsimp only at h
    rw [hfold, Option.some.injEq] at h
    subst h
    split
    · obtain ⟨hsame, hturned⟩ := endRound_cases settings
        { claims.foldl Runner.begin n with fill := .idle }
      exact ⟨⟨hsame.queue, hsame.inFlight, hsame.perDestination, hsame.attempts⟩, hturned⟩
    · obtain ⟨hsame, hturned⟩ := nextTurn_cases settings
        { claims.foldl Runner.begin n with fill := .idle }
      exact ⟨⟨hsame.queue, hsame.inFlight, hsame.perDestination, hsame.attempts⟩, hturned⟩
  case isFalse =>
    right
    split at h
    case isTrue =>
      cases h
      exact .inl (endRound_cases settings n)
    case isFalse =>
      obtain ⟨q, hq, rfl⟩ := Option.map_eq_some_iff.mp h
      exact .inr ⟨q, hq, rfl⟩

theorem Slots.claimAnswered {t : Runner} (h : Slots settings n)
    (hfill : n.fill = .claimed claims asked)
    (hstep : n.claimAnswered settings queueSettings claims asked = some t) :
    Slots settings t := by
  have hn : Slots settings { n with fill := .claimed claims asked } := by
    rw [← hfill]
    exact h
  rcases claimAnswered_cases hstep with ⟨hsame, hturned⟩ | ⟨hsame, hturned⟩ | ⟨q, hq, rfl⟩
  · exact hn.foldl_begin.turned hsame hturned
  · exact h.turned hsame hturned
  · have hreleasing : Slots settings { n with fill := .releasing } :=
      h.congr ⟨rfl, rfl, rfl, rfl⟩ (List.nil_sublist _) h.at_le nofun
    refine hreleasing.withQueue (h.fenced.step hq) (Queue.serials_le hq) fun r hr hwrite ↦ ?_
    have hr : r ∈ n.attempts := by simpa [Fill.claims] using hr
    refine mem_of_step hq (h.held r (List.mem_append_left _ hr) hwrite) fun hmem ↦ ?_
    obtain ⟨r', hr', heq⟩ := List.mem_map.mp hmem
    have hserials := h.serials
    rw [hfill, List.map_append, List.nodup_append] at hserials
    exact hserials.2.2 _ (List.mem_map_of_mem hr) _ (List.mem_map_of_mem hr')
      (congrArg InFlight.serial heq.symm)

theorem Keys.claimAnswered {t : Runner} (h : Keys settings n)
    (hfill : n.fill = .claimed claims asked)
    (hstep : n.claimAnswered settings queueSettings claims asked = some t) :
    Keys settings t := by
  have hn : Keys settings { n with fill := .claimed claims asked } := by
    rw [← hfill]
    exact h
  rcases claimAnswered_cases hstep with ⟨hsame, hturned⟩ | ⟨hsame, hturned⟩ | ⟨q, hq, rfl⟩
  · exact hn.foldl_begin.turned hsame hturned
  · exact h.turned hsame hturned
  · have hreleasing : Keys settings { n with fill := .releasing } :=
      h.congr ⟨rfl, rfl, rfl, rfl⟩ (List.nil_sublist _) h.length_le
    exact hreleasing.withQueue

/-- Attempts that change, but neither their keys nor their claims' numbers. -/
theorem Slots.mapAttempts {f : Attempt → Attempt} (h : Slots settings n) (hr : r ∈ n.attempts)
    (hkey : ∀ r, (f r).key = r.key) (hf : ∀ r, (f r).claim.serial = r.claim.serial)
    (hq : q.Fenced) (hserials : n.queue.serials ≤ q.serials)
    (hother : ∀ c ∈ n.queue.inFlight, c ≠ r.claim → c ∈ q.inFlight)
    (hself : (f r).write ≠ .heldBack → (f r).claim ∈ q.inFlight) :
    Slots settings { n with queue := q, attempts := Table.updateWhere (· = r) f n.attempts } := by
  have hat : ∀ key, attemptsAt { n with
      queue := q, attempts := Table.updateWhere (· = r) f n.attempts } key =
      n.attemptsAt key := by
    intro key
    have hkeys := congrArg (List.countP fun k ↦ decide (k = key))
      (Table.map_updateWhere (t := n.attempts) (p := (· = r)) hkey)
    rw [List.countP_map, List.countP_map] at hkeys
    exact hkeys
  have hmem : ∀ r' ∈ Table.updateWhere (· = r) f n.attempts ++ n.fill.claims,
      r' = f r ∨ r' ≠ r ∧ r' ∈ n.attempts ++ n.fill.claims := by
    intro r' hr'
    rcases List.mem_append.mp hr' with hattempt | hclaim
    · obtain ⟨r₀, hr₀, rfl⟩ := Table.mem_updateWhere.mp hattempt
      by_cases heq : r₀ = r
      · left
        simp [heq]
      · right
        simp only [heq, decide_false, Bool.false_eq_true, if_false]
        exact ⟨heq, List.mem_append_left _ hr₀⟩
    · refine .inr ⟨fun heq ↦ ?_, List.mem_append_right _ hclaim⟩
      have hnodup := h.serials
      rw [List.map_append, List.nodup_append] at hnodup
      exact hnodup.2.2 _ (List.mem_map_of_mem hr) _ (List.mem_map_of_mem hclaim) (by rw [heq])
  refine ⟨hq, fun key ↦ ?_, fun key ↦ ?_, h.keys, ?_, ?_, ?_⟩
  · rw [hat]
    exact h.counters key
  · rw [hat]
    exact h.share key
  · show ((Table.updateWhere (· = r) f n.attempts ++ n.fill.claims).map
      (·.claim.serial)).Nodup
    rw [List.map_append, Table.map_updateWhere hf, ← List.map_append]
    exact h.serials
  · intro r' hr'
    rcases hmem r' hr' with rfl | ⟨-, hr'⟩
    · rw [hf]
      exact (h.serial_lt r (List.mem_append_left _ hr)).trans_le hserials
    · exact (h.serial_lt r' hr').trans_le hserials
  · intro r' hr' hwrite
    rcases hmem r' hr' with rfl | ⟨hne, hr'⟩
    · exact hself hwrite
    · exact hother _ (h.held r' hr' hwrite)
        (h.claim_ne hr' (List.mem_append_left _ hr) hne)

theorem Keys.mapAttempts {p : Attempt → Bool} {f : Attempt → Attempt} (h : Keys settings n)
    (hf : ∀ r, (f r).claim.ref = r.claim.ref ∧ (f r).claim.serial = r.claim.serial) :
    Keys settings { n with queue := q, attempts := Table.updateWhere p f n.attempts } := by
  refine ⟨?_, ?_, ?_⟩
  · show ((Table.updateWhere p f n.attempts ++ n.fill.claims).map (·.claim.ref)).Nodup
    rw [List.map_append, Table.map_updateWhere fun r ↦ (hf r).1, ← List.map_append]
    exact h.refs
  · show n.inFlight = (Table.updateWhere p f n.attempts).map
      fun r ↦ (r.claim.ref, r.claim.serial)
    rw [Table.map_updateWhere fun r ↦ by rw [(hf r).1, (hf r).2]]
    exact h.entries
  · show (Table.updateWhere p f n.attempts).length + n.fill.reserved ≤ _
    rw [Table.updateWhere, List.length_map]
    exact h.total

theorem finish_cases {t : Runner} {outcome : DeliveryOutcome} {retryDelayMs : ℕ}
    (h : n.finish queueSettings r outcome now retryDelayMs = some t) :
    ∃ q, ∃ stage : Stage,
      n.queue.step queueSettings (.worker (.finish r.claim outcome now retryDelayMs)) = some q ∧
      (r.claim ∈ n.queue.inFlight → r.claim.setStage stage ∈ q.inFlight) ∧
      t = { n with
        queue := q
        attempts := Table.updateWhere (· = r)
          (fun r ↦ { r with claim := r.claim.setStage stage }) n.attempts } := by
  obtain ⟨q, hq, rfl⟩ := Option.map_eq_some_iff.mp h
  refine ⟨q, _, hq, fun hmem ↦ ?_, rfl⟩
  simp only [Queue.stepWorker, Option.ite_none_right_eq_some, Option.some.injEq] at hq
  obtain ⟨-, rfl⟩ := hq
  exact Table.mem_updateWhere_of_true hmem (decide_eq_true rfl)

theorem Slots.finish {t : Runner} {outcome : DeliveryOutcome} {retryDelayMs : ℕ}
    (h : Slots settings n) (hr : r ∈ n.attempts)
    (hstep : n.finish queueSettings r outcome now retryDelayMs = some t) : Slots settings t := by
  obtain ⟨q, stage, hq, hself, rfl⟩ := finish_cases hstep
  refine h.mapAttempts hr (fun _ ↦ rfl) (fun _ ↦ rfl) (h.fenced.step hq) (Queue.serials_le hq)
    (fun c hc hne ↦ mem_of_step hq hc ?_) fun hwrite ↦
      hself (h.held r (List.mem_append_left _ hr) hwrite)
  rwa [Action.claims, List.mem_singleton]

theorem Keys.finish {t : Runner} {outcome : DeliveryOutcome} {retryDelayMs : ℕ}
    (h : Keys settings n) (hstep : n.finish queueSettings r outcome now retryDelayMs = some t) :
    Keys settings t := by
  obtain ⟨q, stage, -, -, rfl⟩ := finish_cases hstep
  exact h.mapAttempts fun _ ↦ ⟨rfl, rfl⟩

/-- A write that takes no attempt back keeps the claims fenced, though none of them leaves. -/
theorem fenced_record {outcome : EventDeliveryAttemptRecord} {s : Queue} (h : s.Fenced)
    (hcount : ∀ row ∈ s.fan.deliveries, claimed c.ref row = true →
      (recordRow outcome now row).attemptCount = row.attemptCount) :
    (s.withDeliveries (Delivery.record c.ref outcome now s.fan.deliveries)).Fenced where
  ids := by
    show ((Delivery.record c.ref outcome now s.fan.deliveries).map (·.id)).Nodup
    rw [ids_eq_of_origins record_origins]
    exact h.ids
  refs := h.refs
  serials := h.serials
  serial_lt := h.serial_lt
  held c' hc' := by
    obtain ⟨row, hrow, hid, hle⟩ := h.held c' hc'
    cases hclaimed : claimed c.ref row with
    | false => exact ⟨row, Table.mem_updateWhere_of_false hrow hclaimed, hid, hle⟩
    | true =>
      refine ⟨_, Table.mem_updateWhere_of_true hrow hclaimed, ?_, ?_⟩
      · rw [← hid]
        exact congrArg Prod.fst (recordRow_origin row)
      · rw [hcount row hrow hclaimed]
        exact hle

/-- What the write of an outcome does: a hold that finds its row takes the claim along, any other
write leaves the claims as they are. -/
theorem recordAtStore_cases (queueSettings : Settings) (hfenced : n.queue.Fenced)
    {outcome : EventDeliveryAttemptRecord}
    (hstage : r.claim.stage = .recording outcome now) (hc : r.claim ∈ n.queue.inFlight) :
    ∃ q write, q.Fenced ∧ n.queue.serials ≤ q.serials ∧
      (n.recordAtStore r outcome now) = { n with
        queue := q
        attempts := Table.updateWhere (· = r) ({ · with write := write }) n.attempts } ∧
      (∀ c ∈ n.queue.inFlight, c ≠ r.claim → c ∈ q.inFlight) ∧
      (write ≠ .heldBack → r.claim ∈ q.inFlight) := by
  rw [recordAtStore.eq_def]
  dsimp only
  split
  case h_1 nextAttemptAt hfound =>
    have hstep : n.queue.step queueSettings (.worker (.record r.claim)) =
        some ((n.queue.withDeliveries (Delivery.record r.claim.ref (.hold nextAttemptAt) now
          n.queue.fan.deliveries)).without [r.claim]) := by
      rw [Queue.step, Queue.stepWorker, hstage]
      exact if_pos hc
    refine ⟨_, .heldBack, hfenced.step hstep, le_rfl, rfl, fun c hc hne ↦ ?_, fun h ↦ absurd rfl h⟩
    exact List.mem_filter.mpr ⟨hc, by simpa using hne⟩
  case h_2 outcome _ _ hnot =>
    refine ⟨_, .stored, fenced_record hfenced fun row hrow hclaimed ↦ ?_, le_rfl, rfl,
      fun c hc _ ↦ hc, fun _ ↦ hc⟩
    cases outcome with
    | hold nextAttemptAt =>
      exact (hnot nextAttemptAt rfl (List.any_eq_true.mpr ⟨row, hrow, hclaimed⟩)).elim
    | delivered | retry | failed => rfl

theorem Slots.recordAtStore (h : Slots settings n) (hr : r ∈ n.attempts)
    {outcome : EventDeliveryAttemptRecord} (hstage : r.claim.stage = .recording outcome now)
    (hwrite : r.write = .pending) : Slots settings (n.recordAtStore r outcome now) := by
  have hc := h.held r (List.mem_append_left _ hr) (by rw [hwrite]; nofun)
  obtain ⟨q, write, hq, hserials, heq, hother, hself⟩ :=
    recordAtStore_cases ⟨fun _ ↦ 0, fun _ ↦ 0⟩ h.fenced hstage hc
  rw [heq]
  exact h.mapAttempts hr (fun _ ↦ rfl) (fun _ ↦ rfl) hq hserials hother hself

theorem Keys.recordAtStore (h : Keys settings n) {outcome : EventDeliveryAttemptRecord} :
    Keys settings (n.recordAtStore r outcome now) := by
  rw [recordAtStore.eq_def]
  dsimp only
  split
  · exact h.mapAttempts fun _ ↦ ⟨rfl, rfl⟩
  · exact h.mapAttempts fun _ ↦ ⟨rfl, rfl⟩

/-- An attempt settles: its claim leaves the queue, and its slot is given back. -/
theorem Slots.settleAndFill (h : Slots settings n) (hr : r ∈ n.attempts) :
    Slots settings
      ({ n with queue := n.queue.without [r.claim] }.settleAndFill settings r) := by
  have hlose : ∀ s : Queue, s.Fenced → (s.without [r.claim]).Fenced := by
    intro s hs
    by_cases hmem : r.claim ∈ s.inFlight
    · have hstep : s.step ⟨fun _ ↦ 0, fun _ ↦ 0⟩ (.worker (.lose r.claim)) =
          some (s.without [r.claim]) := if_pos hmem
      exact hs.step hstep
    · have hself : s.without [r.claim] = s := by
        rw [Queue.without, List.filter_eq_self.mpr fun c hc ↦ ?_]
        simp only [List.contains_cons, List.contains_nil, Bool.or_false, Bool.not_eq_true',
          beq_eq_false_iff_ne]
        exact fun heq ↦ hmem (heq ▸ hc)
      rw [hself]
      exact hs
  have hsettled : Slots settings ({ n with queue := n.queue.without [r.claim] }.settled r) := by
    have h' := h.settled hr
    refine h'.withQueue (hlose _ h.fenced) le_rfl fun r' hr' hwrite ↦ ?_
    have hmem := h'.held r' hr' hwrite
    refine List.mem_filter.mpr ⟨hmem, ?_⟩
    have hnodup : n.attempts.Nodup :=
      List.Nodup.of_map _ (h.serials.sublist ((List.sublist_append_left _ _).map _))
    have hne : r' ≠ r := by
      rintro rfl
      rcases List.mem_append.mp hr' with hattempt | hclaim
      · exact hnodup.not_mem_erase hattempt
      · have hserials := h.serials
        rw [List.map_append, List.nodup_append] at hserials
        exact hserials.2.2 _ (List.mem_map_of_mem hr) _ (List.mem_map_of_mem hclaim) rfl
    have := h.claim_ne ((List.Sublist.append List.erase_sublist (.refl _)).subset hr')
      (List.mem_append_left _ hr) hne
    simpa using this
  rw [Runner.settleAndFill]
  split
  · exact hsettled.callFill
  · exact hsettled

theorem Keys.settleAndFill (h : Keys settings n) (hr : r ∈ n.attempts) :
    Keys settings
      ({ n with queue := n.queue.without [r.claim] }.settleAndFill settings r) := by
  have hsettled : Keys settings ({ n with queue := n.queue.without [r.claim] }.settled r) :=
    (h.settled hr).withQueue
  rw [Runner.settleAndFill]
  split
  · exact hsettled.callFill
  · exact hsettled

theorem foldl_settled_withQueue (rs : List Attempt) :
    rs.foldl Runner.settled { n with queue := q } =
      { rs.foldl Runner.settled n with queue := q } := by
  induction rs generalizing n with
  | nil => rfl
  | cons r rs ih => exact ih (n := n.settled r)

theorem Slots.giveUp (h : Slots settings n)
    (hq : n.queue.step queueSettings (.worker (.giveUp (n.left.map (·.claim)))) = some q) :
    Slots settings (n.left.foldl Runner.settled { n with queue := q }) := by
  have hsub : n.left.Subperm n.attempts := List.filter_sublist.subperm
  have h' := h.foldl_settled hsub
  rw [foldl_settled_withQueue]
  refine h'.withQueue (h.fenced.step hq) ?_ fun r hr hwrite ↦ ?_
  · rw [queue_foldl_settled]
    exact Queue.serials_le hq
  · have hmem := h'.held r hr hwrite
    rw [queue_foldl_settled] at hmem
    rw [attempts_foldl_settled, fill_foldl_settled] at hr
    have hr₀ : r ∈ n.attempts ++ n.fill.claims := by
      rcases List.mem_append.mp hr with hattempt | hclaim
      · exact List.mem_append_left _ ((List.diff_sublist _ _).subset hattempt)
      · exact List.mem_append_right _ hclaim
    refine mem_of_step hq hmem fun hgiven ↦ ?_
    obtain ⟨r', hr', heq⟩ := List.mem_map.mp hgiven
    have hr'₀ : r' ∈ n.attempts := List.mem_of_mem_filter hr'
    have hserials := h.serials
    by_cases hne : r' = r
    · subst hne
      rcases List.mem_append.mp hr with hattempt | hclaim
      · have hnodup : n.attempts.Nodup :=
          List.Nodup.of_map _ (hserials.sublist ((List.sublist_append_left _ _).map _))
        exact (hnodup.mem_sdiff_iff.mp hattempt).2 hr'
      · rw [List.map_append, List.nodup_append] at hserials
        exact hserials.2.2 _ (List.mem_map_of_mem hr'₀) _ (List.mem_map_of_mem hclaim) rfl
    · exact h.claim_ne (List.mem_append_left _ hr'₀) hr₀ hne heq

theorem Keys.giveUp (h : Keys settings n) :
    Keys settings (n.left.foldl Runner.settled { n with queue := q }) := by
  rw [foldl_settled_withQueue]
  exact (h.foldl_settled List.filter_sublist.subperm).withQueue

end Steps

/-! ### Every step -/

variable {action : RunnerAction} {actions : List RunnerAction}

/-- Every step keeps the counters right. -/
theorem Slots.step (h : Slots settings n)
    (hstep : n.step settings queueSettings me action = some m) : Slots settings m := by
  cases action with
  | fill =>
    cases hstep
    exact h.callFill
  | listed due =>
    simp only [Runner.step] at hstep
    split at hstep
    · cases hstep
      exact h.listed
    · cases hstep
  | claim now locked =>
    simp only [Runner.step] at hstep
    split at hstep
    case h_1 picks hfill => exact h.claimAtStore hfill hstep
    case h_2 => cases hstep
  | claimed =>
    simp only [Runner.step] at hstep
    split at hstep
    case h_1 claims asked hfill => exact h.claimAnswered hfill hstep
    case h_2 => cases hstep
  | fillFailed =>
    simp only [Runner.step] at hstep
    split at hstep <;> cases hstep
    all_goals exact h.turned ⟨rfl, rfl, rfl, rfl⟩ (.inl rfl)
  | released =>
    simp only [Runner.step, Option.ite_none_right_eq_some, Option.some.injEq] at hstep
    obtain ⟨-, rfl⟩ := hstep
    exact h.turned (endRound_cases settings n).1 (endRound_cases settings n).2
  | finish attempt outcome now retryDelayMs =>
    simp only [Runner.step, Option.ite_none_right_eq_some] at hstep
    exact h.finish hstep.1 hstep.2
  | record attempt =>
    simp only [Runner.step] at hstep
    split at hstep
    case h_1 outcome now hstage hwrite =>
      simp only [Option.ite_none_right_eq_some, Option.some.injEq] at hstep
      obtain ⟨hmem, rfl⟩ := hstep
      exact h.recordAtStore hmem hstage hwrite
    case h_2 => cases hstep
  | settle attempt =>
    simp only [Runner.step] at hstep
    split at hstep
    · simp only [Option.ite_none_right_eq_some, Option.some.injEq] at hstep
      obtain ⟨hmem, rfl⟩ := hstep
      exact h.settleAndFill hmem
    · cases hstep
  | stop =>
    simp only [Runner.step, Option.ite_none_right_eq_some, Option.some.injEq] at hstep
    obtain ⟨-, rfl⟩ := hstep
    exact h.congr ⟨rfl, rfl, rfl, rfl⟩ (.refl _) h.share h.keys
  | giveUp =>
    simp only [Runner.step, Option.ite_none_right_eq_some, Option.map_eq_some_iff] at hstep
    obtain ⟨-, q, hq, rfl⟩ := hstep
    have hq' : n.queue.step queueSettings (.worker (.giveUp (n.left.map (·.claim)))) = some q := hq
    exact h.giveUp hq'
  | stopped =>
    simp only [Runner.step, Option.ite_none_right_eq_some, Option.some.injEq] at hstep
    obtain ⟨-, rfl⟩ := hstep
    exact h.congr ⟨rfl, rfl, rfl, rfl⟩ (.refl _) h.share h.keys
  | other a =>
    simp only [Runner.step, Option.ite_none_right_eq_some, Option.map_eq_some_iff] at hstep
    obtain ⟨hnot, q, hq, rfl⟩ := hstep
    exact h.withQueue (h.fenced.step hq) (Queue.serials_le hq) fun r hr hwrite ↦
      mem_of_step hq (h.held r hr hwrite) fun hmem ↦ hnot _ hmem r hr rfl

/-- A step keeps the keys apart, unless it claims a row whose hold is not answered. -/
theorem Keys.step (h : Keys settings n) (hslots : Slots settings n)
    (hholds : n.HoldsAnswered settings action)
    (hstep : n.step settings queueSettings me action = some m) : Keys settings m := by
  cases action with
  | fill =>
    cases hstep
    exact h.callFill
  | listed due =>
    simp only [Runner.step] at hstep
    split at hstep
    case h_1 free hfill =>
      cases hstep
      exact h.listed hfill
    case h_2 => cases hstep
  | claim now locked =>
    simp only [Runner.step] at hstep
    split at hstep
    case h_1 picks hfill => exact h.claimAtStore hslots hfill hholds hstep
    case h_2 => cases hstep
  | claimed =>
    simp only [Runner.step] at hstep
    split at hstep
    case h_1 claims asked hfill => exact h.claimAnswered hfill hstep
    case h_2 => cases hstep
  | fillFailed =>
    simp only [Runner.step] at hstep
    split at hstep <;> cases hstep
    all_goals exact h.turned ⟨rfl, rfl, rfl, rfl⟩ (.inl rfl)
  | released =>
    simp only [Runner.step, Option.ite_none_right_eq_some, Option.some.injEq] at hstep
    obtain ⟨-, rfl⟩ := hstep
    exact h.turned (endRound_cases settings n).1 (endRound_cases settings n).2
  | finish attempt outcome now retryDelayMs =>
    simp only [Runner.step, Option.ite_none_right_eq_some] at hstep
    exact h.finish hstep.2
  | record attempt =>
    simp only [Runner.step] at hstep
    split at hstep
    · simp only [Option.ite_none_right_eq_some, Option.some.injEq] at hstep
      obtain ⟨-, rfl⟩ := hstep
      exact h.recordAtStore
    · cases hstep
  | settle attempt =>
    simp only [Runner.step] at hstep
    split at hstep
    · simp only [Option.ite_none_right_eq_some, Option.some.injEq] at hstep
      obtain ⟨hmem, rfl⟩ := hstep
      exact h.settleAndFill hmem
    · cases hstep
  | stop =>
    simp only [Runner.step, Option.ite_none_right_eq_some, Option.some.injEq] at hstep
    obtain ⟨-, rfl⟩ := hstep
    exact h.congr ⟨rfl, rfl, rfl, rfl⟩ (.refl _) h.total
  | giveUp =>
    simp only [Runner.step, Option.ite_none_right_eq_some, Option.map_eq_some_iff] at hstep
    obtain ⟨-, q, -, rfl⟩ := hstep
    exact h.giveUp
  | stopped =>
    simp only [Runner.step, Option.ite_none_right_eq_some, Option.some.injEq] at hstep
    obtain ⟨-, rfl⟩ := hstep
    exact h.congr ⟨rfl, rfl, rfl, rfl⟩ (.refl _) h.total
  | other a =>
    simp only [Runner.step, Option.ite_none_right_eq_some, Option.map_eq_some_iff] at hstep
    obtain ⟨-, q, -, rfl⟩ := hstep
    exact h.withQueue

/-! ### What a node promises -/

/-- A node that just started, over a queue in any reachable state. -/
structure Initial (queueSettings : Settings) (n : Runner) : Prop where
  queue : (queueSystem queueSettings).Reachable n.queue
  phase : n.phase = .running
  inFlight : n.inFlight = []
  perDestination : n.perDestination = fun _ ↦ none
  attempts : n.attempts = []
  fill : n.fill = .idle

/-- The counters are those of the attempts that run, and no destination has more than its share. -/
structure Counted (settings : DeliverySettings) (n : Runner) : Prop where
  destination : ∀ key, n.attemptsAt key ≤ settings.maxInFlightPerDestination
  counters : ∀ key, n.perDestination key =
    if n.attemptsAt key = 0 then none else some (n.attemptsAt key)

/-- What a node promises: not too many attempts run, at all or for one destination; its counters
are right, and gone where nothing runs; and no two attempts have one key. -/
structure Bounded (settings : DeliverySettings) (n : Runner) : Prop extends
    Counted settings n where
  concurrency : n.attempts.length ≤ settings.concurrency
  keys : (n.attempts.map (·.claim.ref)).Nodup

theorem Slots.counted (h : Slots settings n) : Counted settings n := ⟨h.at_le, h.counters⟩

theorem Keys.bounded (h : Keys settings n) (hslots : Slots settings n) : Bounded settings n :=
  ⟨hslots.counted, h.length_le, h.refs_attempts⟩

theorem slots_of_initial (h : Initial queueSettings n) : Slots settings n where
  fenced := (fenced_invariant queueSettings).reachable h.queue
  counters key := by
    rw [h.perDestination, attemptsAt, h.attempts]
    rfl
  share key := by
    rw [attemptsAt, h.attempts, h.fill]
    exact Nat.zero_le _
  keys picks hpicks := by
    rw [h.fill] at hpicks
    cases hpicks
  serials := by simp [h.attempts, h.fill, Fill.claims]
  serial_lt := by simp [h.attempts, h.fill, Fill.claims]
  held := by simp [h.attempts, h.fill, Fill.claims]

theorem keys_of_initial (h : Initial queueSettings n) : Keys settings n where
  refs := by simp [h.attempts, h.fill, Fill.claims]
  entries := by simp [h.inFlight, h.attempts]
  total := by simp [h.attempts, h.fill, Fill.reserved]

end Runner

namespace Sample

/-- Two destinations of one kind. -/
def twoDestinations : FanOutRequest :=
  ⟨["webhook"], [webhook, { webhook with id := "w2" }], 0, 500, 10, [], pageSize_pos⟩

/-- One event, queued for both. -/
def queued : List Action :=
  startPage twoDestinations ++ writeEvent 1 5 ++ deliverPage twoDestinations [100, 101]

/-- A node that just started over them. -/
def node : Runner where
  queue := (exec (Queue.step settings) .empty queued).getD .empty
  phase := .running
  inFlight := []
  perDestination := fun _ ↦ none
  attempts := []
  fill := .idle
  fillAgain := false
  rotation := 0

def twoSlots : DeliverySettings := ⟨["webhook"], 2, 60000, 2, 2, le_rfl⟩

/-- The claim loop claims for one destination. -/
def claimFor (id : String) (now : ℕ) : List RunnerAction :=
  [.listed [⟨"webhook", id⟩], .claim now [], .claimed]

def firstAttempt (stage : Stage) (write : Write) : Attempt :=
  ⟨⟨0, 0, ⟨100, 1⟩, stage⟩, destinationKey "webhook" "w1", write⟩

/-- The route holds the first attempt, and the hold is written. -/
def heldFirst : List RunnerAction :=
  [.fill] ++ claimFor "w1" 0 ++ [.finish (firstAttempt .attempting .pending) .hold 0 0,
    .record (firstAttempt (.recording (.hold 30000) 0) .pending)]

/-- The hold's answer. -/
def answerFirst : RunnerAction :=
  .settle (firstAttempt (.recording (.hold 30000) 0) .heldBack)

theorem node_initial : Runner.Initial settings node := by
  refine ⟨?_, rfl, rfl, rfl, rfl, rfl⟩
  obtain ⟨q, hq⟩ : ∃ q, exec (Queue.step settings) .empty queued = some q :=
    Option.isSome_iff_exists.mp (by decide)
  have hnode : node.queue = q := by
    rw [node, hq]
    rfl
  rw [hnode]
  exact ⟨.empty, queued, Queue.empty_initial settings, .of_exec hq⟩

end Sample

namespace Runner

/-- In every run of a node its counters are right and no destination has more than its share; and
where no delivery is claimed again under an attempt whose hold is not answered, everything that a
node promises holds in every state. -/
theorem bounded_of_run (settings : DeliverySettings) (queueSettings : Settings) (me : ℕ)
    {n m : Runner} {actions : List RunnerAction} (hinitial : Initial queueSettings n) :
    (Run (Runner.step settings queueSettings me) n actions m → Counted settings m) ∧
      (Run.Along (Runner.step settings queueSettings me) (HoldsAnswered settings) n actions m →
        Bounded settings m) := by
  constructor
  · intro h
    exact (h.induct (P := Slots settings) (fun _ _ _ hs hstep ↦ hs.step hstep)
      (slots_of_initial hinitial)).counted
  · intro h
    have hm := h.induct (P := fun n ↦ Slots settings n ∧ Keys settings n)
      (fun _ _ _ hs hholds hstep ↦ ⟨hs.1.step hstep, hs.2.step hs.1 hholds hstep⟩)
      ⟨slots_of_initial hinitial, keys_of_initial hinitial⟩
    exact hm.2.bounded hm.1

open Sample in
/-- A hold that was answered: its delivery is claimed again, and both slots are in use. -/
theorem bounded_of_run_answered :
    ∃ m, Run.Along (Runner.step twoSlots Delivery.Sample.settings 0) (HoldsAnswered twoSlots) node
        (heldFirst ++ [answerFirst] ++ claimFor "w1" 30000 ++ [.fill] ++ claimFor "w2" 30000) m ∧
      Bounded twoSlots m := by
  obtain ⟨m, hm⟩ := Option.isSome_iff_exists.mp (show (exec (fun s a ↦
      if HoldsAnswered twoSlots s a then Runner.step twoSlots Delivery.Sample.settings 0 s a
      else none) node (heldFirst ++ [answerFirst] ++ claimFor "w1" 30000 ++ [.fill] ++
        claimFor "w2" 30000)).isSome = true by decide)
  have hrun := Run.Along.of_exec hm
  exact ⟨m, hrun, (bounded_of_run twoSlots Delivery.Sample.settings 0 node_initial).2 hrun⟩

open Sample in
/-- A hold's answer is on its way while its delivery comes due again: two attempts run under one
key, the map counts them as one, and with the slot that looks free three attempts run in two. -/
theorem not_bounded_of_unanswered_hold :
    ∃ n m, Initial Delivery.Sample.settings n ∧
      Run (Runner.step twoSlots Delivery.Sample.settings 0) n
        (heldFirst ++ [.fill] ++ claimFor "w1" 30000 ++ claimFor "w2" 30000) m ∧
      ¬ (m.attempts.map (·.claim.ref)).Nodup ∧ twoSlots.concurrency < m.attempts.length := by
  obtain ⟨m, hm⟩ := Option.isSome_iff_exists.mp (show (exec
    (Runner.step twoSlots Delivery.Sample.settings 0) node
      (heldFirst ++ [.fill] ++ claimFor "w1" 30000 ++ claimFor "w2" 30000)).isSome = true by
        decide)
  have hrefs : (exec (Runner.step twoSlots Delivery.Sample.settings 0) node
      (heldFirst ++ [.fill] ++ claimFor "w1" 30000 ++ claimFor "w2" 30000)).map
        (fun n ↦ n.attempts.map (·.claim.ref)) =
      some [⟨100, 1⟩, ⟨100, 1⟩, ⟨101, 1⟩] := by decide
  rw [hm, Option.map_some, Option.some.injEq] at hrefs
  refine ⟨node, m, node_initial, .of_exec hm, ?_, ?_⟩
  · rw [hrefs]
    decide
  · have hlength := congrArg List.length hrefs
    rw [List.length_map] at hlength
    rw [hlength]
    decide

end Runner

end QAuth.Delivery
