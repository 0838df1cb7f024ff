import QAuth.Delivery.Fencing

/-!
# The delivery role on one node

One node claims due deliveries into its free slots and runs their attempts. One claim loop runs at a
time: it reads the due destinations, hands its free slots out among them in turn, claims, and begins
what it got. An attempt runs until the answer to its outcome's write is there; it is kept in a map
by delivery and attempt, and counted for its destination. The other nodes, the event writers and the
fan-outs change the store between any two steps.

A claim of the node stays in the queue until the answer to its write is there, except that a hold
which found its row took the attempt back.
-/

namespace QAuth.Delivery

open Events

/-- How the role runs, as far as its slots depend on it. -/
structure DeliverySettings where
  kinds : List String
  maxAttempts : ℕ
  leaseMs : ℕ
  /-- The attempts this node runs at once. -/
  concurrency : ℕ
  /-- The attempts this node runs at once for one destination. -/
  maxInFlightPerDestination : ℕ
  maxInFlight_le : maxInFlightPerDestination ≤ concurrency

/-- The key a destination is counted under. -/
def destinationKey (kind id : String) : String := kind ++ "\u0000" ++ id

def EventDeliveryPick.key (pick : EventDeliveryPick) : String := destinationKey pick.kind pick.id

/-- The pick with one slot more. -/
def EventDeliveryPick.more (pick : EventDeliveryPick) : EventDeliveryPick :=
  { pick with limit := pick.limit + 1 }

@[simp] theorem EventDeliveryPick.key_more (pick : EventDeliveryPick) : pick.more.key = pick.key :=
  rfl

@[simp] theorem EventDeliveryPick.limit_more (pick : EventDeliveryPick) :
    pick.more.limit = pick.limit + 1 := rfl

/-- A destination with due rows. -/
structure DueDestination where
  kind : String
  id : String

def DueDestination.key (d : DueDestination) : String := destinationKey d.kind d.id

/-! ### Handing the free slots out -/

/-- The slots handed out so far. -/
structure HandOut where
  picks : List EventDeliveryPick
  remaining : ℕ
  progressed : Bool

/-- The slots picked for a destination so far. -/
def limitOf (picks : List EventDeliveryPick) (key : String) : ℕ :=
  ((picks.find? (·.key = key)).map (·.limit)).getD 0

def addSlot (picks : List EventDeliveryPick) (d : DueDestination) : List EventDeliveryPick :=
  if picks.any (·.key = d.key) then
    Table.updateWhere (·.key = d.key) EventDeliveryPick.more picks
  else picks ++ [⟨d.kind, d.id, 1⟩]

/-- One slot for the destination, unless none is left or it has its share. -/
def takeSlot (maxInFlight : ℕ) (inFlightAt : String → ℕ) (x : HandOut) (d : DueDestination) :
    HandOut :=
  if x.remaining = 0 then x
  else if maxInFlight ≤ inFlightAt d.key + limitOf x.picks d.key then x
  else ⟨addSlot x.picks d, x.remaining - 1, true⟩

/-- The rounds of the hand-out: each gives a slot to every destination that may have one more, until
a round gives none. -/
def handOut (maxInFlight : ℕ) (inFlightAt : String → ℕ) (order : List DueDestination) :
    ℕ → HandOut → List EventDeliveryPick
  | 0, x => x.picks
  | rounds + 1, x =>
    if x.remaining = 0 then x.picks
    else
      let y := order.foldl (takeSlot maxInFlight inFlightAt) { x with progressed := false }
      if y.progressed then handOut maxInFlight inFlightAt order rounds y else y.picks

/-- The number of slots in some picks. -/
def slots (picks : List EventDeliveryPick) : ℕ := (picks.map (·.limit)).sum

/-- What is handed out is free: no destination gets more than its share, and all get no more than
there is. -/
structure Room (maxInFlight : ℕ) (inFlightAt : String → ℕ) (free : ℕ) (x : HandOut) : Prop where
  keys : (x.picks.map (·.key)).Nodup
  share : ∀ pick ∈ x.picks, inFlightAt pick.key + pick.limit ≤ maxInFlight
  total : slots x.picks + x.remaining = free

section HandOut

variable {maxInFlight free : ℕ} {inFlightAt : String → ℕ} {x : HandOut} {d : DueDestination}
  {picks : List EventDeliveryPick} {order : List DueDestination}

theorem limitOf_of_mem {pick : EventDeliveryPick} (hnodup : (picks.map (·.key)).Nodup)
    (h : pick ∈ picks) : limitOf picks pick.key = pick.limit := by
  have hfind : picks.find? (·.key = pick.key) = some pick := by
    induction picks with
    | nil => cases h
    | cons p picks ih =>
      rw [List.map_cons, List.nodup_cons] at hnodup
      rcases List.mem_cons.mp h with rfl | h
      · simp
      · have hne : p.key ≠ pick.key := fun heq ↦
          hnodup.1 (List.mem_map.mpr ⟨pick, h, heq.symm⟩)
        rw [List.find?_cons_of_neg (by simp [hne]), ih hnodup.2 h]
  rw [limitOf, hfind]
  rfl

theorem keys_addSlot (hnodup : (picks.map (·.key)).Nodup) :
    ((addSlot picks d).map (·.key)).Nodup := by
  rw [addSlot]
  split
  case isTrue => rwa [Table.map_updateWhere EventDeliveryPick.key_more]
  case isFalse h =>
    rw [List.map_append, List.nodup_append]
    refine ⟨hnodup, List.nodup_singleton _, ?_⟩
    rintro key hkey _ hnew rfl
    obtain ⟨pick, hpick, rfl⟩ := List.mem_map.mp hkey
    refine h (List.any_eq_true.mpr ⟨pick, hpick, decide_eq_true ?_⟩)
    simpa [DueDestination.key, EventDeliveryPick.key] using hnew

theorem slots_addSlot (hnodup : (picks.map (·.key)).Nodup) :
    slots (addSlot picks d) = slots picks + 1 := by
  rw [addSlot]
  split
  case isFalse => simp [slots]
  case isTrue h =>
    obtain ⟨pick, hpick, hkey⟩ := List.any_eq_true.mp h
    have hkey := of_decide_eq_true hkey
    induction picks with
    | nil => cases hpick
    | cons p picks ih =>
      rw [List.map_cons, List.nodup_cons] at hnodup
      by_cases hp : p.key = d.key
      · have hrest : Table.updateWhere (·.key = d.key) EventDeliveryPick.more picks = picks := by
          refine Table.updateWhere_eq_self_iff.mpr fun q hq hqkey ↦ ?_
          exact absurd (List.mem_map.mpr ⟨q, hq, (of_decide_eq_true hqkey).trans hp.symm⟩)
            hnodup.1
        have hhead : Table.updateWhere (·.key = d.key)
            EventDeliveryPick.more (p :: picks) =
            p.more :: picks := by
          rw [Table.updateWhere, List.map_cons, if_pos (decide_eq_true hp)]
          exact congrArg _ hrest
        rw [hhead, slots, slots, List.map_cons, List.map_cons, List.sum_cons, List.sum_cons,
          EventDeliveryPick.limit_more]
        omega
      · have hmem : pick ∈ picks :=
          (List.mem_cons.mp hpick).resolve_left fun heq ↦ hp (heq ▸ hkey)
        have hrest := ih hnodup.2 (List.any_eq_true.mpr ⟨pick, hmem, decide_eq_true hkey⟩) hmem
        have hhead : Table.updateWhere (·.key = d.key)
            EventDeliveryPick.more (p :: picks) =
            p :: Table.updateWhere (·.key = d.key)
              EventDeliveryPick.more picks := by
          rw [Table.updateWhere, List.map_cons, if_neg (by simp [hp])]
          rfl
        rw [hhead, slots, List.map_cons, List.sum_cons]
        rw [slots] at hrest
        rw [hrest, slots, slots, List.map_cons, List.sum_cons]
        omega

theorem Room.takeSlot (h : Room maxInFlight inFlightAt free x) :
    Room maxInFlight inFlightAt free (takeSlot maxInFlight inFlightAt x d) := by
  rw [Delivery.takeSlot]
  split
  case isTrue => exact h
  split
  case isTrue => exact h
  case isFalse hremaining hshare =>
    refine ⟨keys_addSlot h.keys, ?_, ?_⟩
    · intro pick hpick
      rw [addSlot] at hpick
      split at hpick
      · obtain ⟨p, hp, rfl⟩ := Table.mem_updateWhere.mp hpick
        split
        case isTrue hkey =>
          have hkey := of_decide_eq_true hkey
          rw [← hkey, limitOf_of_mem h.keys hp] at hshare
          rw [EventDeliveryPick.key_more, EventDeliveryPick.limit_more]
          omega
        case isFalse => exact h.share p hp
      case isFalse hnone =>
        rcases List.mem_append.mp hpick with hpick | hpick
        · exact h.share pick hpick
        · obtain rfl := List.mem_singleton.mp hpick
          show inFlightAt d.key + 1 ≤ maxInFlight
          omega
    · have := h.total
      show slots (addSlot x.picks d) + (x.remaining - 1) = free
      rw [slots_addSlot h.keys]
      omega

theorem Room.foldl (h : Room maxInFlight inFlightAt free x) :
    Room maxInFlight inFlightAt free (order.foldl (Delivery.takeSlot maxInFlight inFlightAt) x) := by
  induction order generalizing x with
  | nil => exact h
  | cons d order ih => exact ih h.takeSlot

/-- What is handed out is free. -/
theorem room_handOut {rounds : ℕ} (h : Room maxInFlight inFlightAt free x) :
    ((handOut maxInFlight inFlightAt order rounds x).map (·.key)).Nodup ∧
      (∀ pick ∈ handOut maxInFlight inFlightAt order rounds x,
        inFlightAt pick.key + pick.limit ≤ maxInFlight) ∧
      slots (handOut maxInFlight inFlightAt order rounds x) ≤ free := by
  induction rounds generalizing x with
  | zero =>
    have := h.total
    exact ⟨h.keys, h.share, by rw [handOut]; omega⟩
  | succ rounds ih =>
    have hround : Room maxInFlight inFlightAt free
        (order.foldl (Delivery.takeSlot maxInFlight inFlightAt) { x with progressed := false }) :=
      Room.foldl ⟨h.keys, h.share, h.total⟩
    have := h.total
    have := hround.total
    rw [handOut]
    split
    · exact ⟨h.keys, h.share, by omega⟩
    · dsimp only
      split
      · exact ih hround
      · exact ⟨hround.keys, hround.share, by omega⟩

end HandOut

/-! ### The node -/

/-- What became of an attempt's write. -/
inductive Write
  | pending
  | stored
  /-- a hold that found its row: the attempt was taken back -/
  | heldBack
  deriving DecidableEq

/-- An attempt that runs. -/
structure Attempt where
  claim : InFlight
  /-- The key of its destination. -/
  key : String
  write : Write
  deriving DecidableEq

/-- The claim loop. -/
inductive Fill
  | idle
  /-- The due destinations are asked for; so many slots were free. -/
  | listing (free : ℕ)
  | asking (picks : List EventDeliveryPick)
  /-- The claim was made for so many slots, and its answer is on its way. -/
  | claimed (claims : List Attempt) (asked : ℕ)
  /-- The role stopped while it claimed, and gives the claims back. -/
  | releasing
  deriving DecidableEq

/-- The claims whose answer is on its way. -/
def Fill.claims : Fill → List Attempt
  | .claimed claims _ => claims
  | _ => []

/-- The slots that a claim is asked for. -/
def Fill.picks : Fill → List EventDeliveryPick
  | .asking picks => picks
  | _ => []

inductive Phase
  | running
  | stopping
  | stopped
  deriving DecidableEq

/-- A node over its store. -/
structure Runner where
  queue : Queue
  phase : Phase
  /-- The attempts in flight, by delivery and attempt; an entry holds its claim's serial. -/
  inFlight : List (EventDeliveryClaimRef × ℕ)
  perDestination : String → Option ℕ
  /-- The attempts whose promises are not settled; no code reads them together. -/
  attempts : List Attempt
  fill : Fill
  fillAgain : Bool
  /-- Where the next claim round starts among the due destinations. -/
  rotation : ℕ

/-- What happens at a node. -/
inductive RunnerAction
  /-- The cycle, or a fan-out that wrote rows, calls the claim loop. -/
  | fill
  /-- The due destinations are read. -/
  | listed (due : List DueDestination)
  /-- The claim reaches the store. -/
  | claim (now : ℕ) (locked : List Uuid)
  /-- The claim's answer is there. -/
  | claimed
  /-- A call of the claim loop fails, or its answer is lost. -/
  | fillFailed
  /-- The claims made while the role stopped were given back, or could not be. -/
  | released
  /-- An attempt ended, at `now` on the node's clock. -/
  | finish (attempt : Attempt) (outcome : DeliveryOutcome) (now retryDelayMs : ℕ)
  /-- The write of an outcome reaches the store. -/
  | record (attempt : Attempt)
  /-- The answer to an outcome's write is there, or the write failed. -/
  | settle (attempt : Attempt)
  | stop
  /-- The shutdown limit is reached: the attempts whose route still runs are given up. -/
  | giveUp
  | stopped
  /-- Anything that none of the node's attempts and claims has part in. -/
  | other (a : Action)

/-- The claims an action names. -/
def Action.claims : Action → List InFlight
  | .worker (.finish c _ _ _) => [c]
  | .worker (.giveUp claims) => claims
  | .worker (.record c) => [c]
  | .worker (.release claims _) => claims
  | .worker (.lose c) => [c]
  | _ => []

namespace Runner

variable (settings : DeliverySettings) (queueSettings : Settings) (me : ℕ)

/-- The attempts that run for a destination. -/
def attemptsAt (n : Runner) (key : String) : ℕ := n.attempts.countP (·.key = key)

def inFlightAt (n : Runner) (key : String) : ℕ := (n.perDestination key).getD 0

/-- The claim loop goes on if the role runs and has a free slot. -/
def goesOn (n : Runner) : Bool :=
  n.phase = .running && n.inFlight.length < settings.concurrency

/-- A round of the claim loop is over; it runs again if it was called meanwhile. -/
def endRound (n : Runner) : Runner :=
  if n.fillAgain && n.goesOn settings then
    { n with fill := .listing (settings.concurrency - n.inFlight.length), fillAgain := false }
  else { n with fill := .idle, fillAgain := n.fillAgain && n.phase ≠ .running }

def nextTurn (n : Runner) : Runner :=
  if n.goesOn settings then
    { n with fill := .listing (settings.concurrency - n.inFlight.length) }
  else n.endRound settings

/-- One claim loop at a time; a call meanwhile runs it again. -/
def callFill (n : Runner) : Runner :=
  if n.fill ≠ .idle then { n with fillAgain := true }
  else if settings.kinds = [] then { n with fillAgain := false }
  else { n with fillAgain := false }.nextTurn settings

def begin (n : Runner) (attempt : Attempt) : Runner :=
  { n with
    perDestination :=
      Function.update n.perDestination attempt.key (some (n.inFlightAt attempt.key + 1))
    inFlight := Table.upsert n.inFlight attempt.claim.ref attempt.claim.serial
    attempts := n.attempts ++ [attempt] }

/-- An attempt is over: its entry and its slot are given back. -/
def settled (n : Runner) (attempt : Attempt) : Runner :=
  let left := (n.perDestination attempt.key).getD 1 - 1
  { n with
    inFlight := n.inFlight.filter (·.1 ≠ attempt.claim.ref)
    perDestination :=
      Function.update n.perDestination attempt.key (if 0 < left then some left else none)
    attempts := n.attempts.erase attempt }

/-- An attempt is over, and a role that runs claims the next one. -/
def settleAndFill (n : Runner) (attempt : Attempt) : Runner :=
  if n.phase = .running then (n.settled attempt).callFill settings else n.settled attempt

/-- The attempts that the role finds in its map, their routes running. -/
def left (n : Runner) : List Attempt :=
  n.attempts.filter fun r ↦
    n.inFlight.contains (r.claim.ref, r.claim.serial) && r.claim.stage = .attempting

/-- The rows a claim leased, as the node is told. -/
def claimedAttempts (rows : List EventDelivery) (serials : ℕ) : List Attempt :=
  (rows.zipIdx serials).map fun x ↦
    ⟨⟨x.2, me, ⟨x.1.id, x.1.attemptCount⟩, .attempting⟩,
      destinationKey x.1.destinationKind x.1.destinationId, .pending⟩

/-- The rows that a claim leased. -/
def claimedRows (events : List Event) (request : EventDeliveryClaimRequest) (locked : List Uuid)
    (t : List EventDelivery) : List EventDelivery :=
  (claim events request locked t).filter fun r ↦
    (picked events request locked t).contains r.id && r.status = .pending && r.lockedUntil.isSome

/-- The request for some picks. -/
def request (picks : List EventDeliveryPick) (now : ℕ) : EventDeliveryClaimRequest :=
  ⟨picks, now, settings.leaseMs, settings.maxAttempts⟩

/-- The due destinations are there: the free slots are handed out, starting at a different
destination each round. -/
def listed (n : Runner) (free : ℕ) (due : List DueDestination) : Runner :=
  let «open» := due.filter fun d ↦ n.inFlightAt d.key < settings.maxInFlightPerDestination
  if «open» = [] then n.endRound settings
  else
    let start := n.rotation % «open».length
    { n with
      rotation := (n.rotation + 1) % (2 ^ 53 - 1)
      fill := .asking (handOut settings.maxInFlightPerDestination n.inFlightAt
        («open».drop start ++ «open».take start) free ⟨[], free, true⟩) }

/-- The claim reaches the store. -/
def claimAtStore (n : Runner) (picks : List EventDeliveryPick) (now : ℕ) (locked : List Uuid) :
    Option Runner :=
  let events := n.queue.fan.log.events
  let rows := claimedRows events (request settings picks now) locked n.queue.fan.deliveries
  (n.queue.stepWorker queueSettings (.claim me (request settings picks now) locked)).map
    fun queue ↦ { n with
      queue := queue
      fill := .claimed (claimedAttempts me rows n.queue.serials) (slots picks) }

/-- The claim's answer is there: a role that runs begins what it got, one that stopped gives it
back. -/
def claimAnswered (n : Runner) (claims : List Attempt) (asked : ℕ) : Option Runner :=
  if n.phase = .running then
    let began := claims.foldl begin { n with fill := .idle }
    some (if claims.length < asked then began.endRound settings else began.nextTurn settings)
  else if claims = [] then some (n.endRound settings)
  else
    (n.queue.stepWorker queueSettings (.giveUp (claims.map (·.claim)))).map fun queue ↦
      { n with queue := queue, fill := .releasing }

/-- An outcome's write reaches the store. A hold that finds its row takes the attempt back, and the
claim is gone; any other claim stays until the answer is there. -/
def recordAtStore (n : Runner) (attempt : Attempt) (outcome : EventDeliveryAttemptRecord)
    (now : ℕ) : Runner :=
  let c := attempt.claim
  let found := n.queue.fan.deliveries.any (Delivery.claimed c.ref)
  let queue := n.queue.withDeliveries (Delivery.record c.ref outcome now n.queue.fan.deliveries)
  match outcome, found with
  | .hold _, true => { n with
      queue := queue.without [c]
      attempts := Table.updateWhere (· = attempt) ({ · with write := .heldBack }) n.attempts }
  | _, _ => { n with
      queue := queue
      attempts := Table.updateWhere (· = attempt) ({ · with write := .stored }) n.attempts }

/-- An attempt ended: its outcome's write is on its way. -/
def finish (n : Runner) (attempt : Attempt) (outcome : DeliveryOutcome) (now retryDelayMs : ℕ) :
    Option Runner :=
  let record := attemptRecord (queueSettings.maxAttempts attempt.claim.worker)
    attempt.claim.ref.attempt now retryDelayMs outcome
  (n.queue.stepWorker queueSettings (.finish attempt.claim outcome now retryDelayMs)).map
    fun queue ↦ { n with
      queue := queue
      attempts := Table.updateWhere (· = attempt)
        (fun r ↦ { r with claim := r.claim.setStage (.recording record now) }) n.attempts }

def step (n : Runner) : RunnerAction → Option Runner
  | .fill => some (n.callFill settings)
  | .listed due =>
    match n.fill with
    | .listing free => some (n.listed settings free due)
    | _ => none
  | .claim now locked =>
    match n.fill with
    | .asking picks => n.claimAtStore settings queueSettings me picks now locked
    | _ => none
  | .claimed =>
    match n.fill with
    | .claimed claims asked => n.claimAnswered settings queueSettings claims asked
    | _ => none
  | .fillFailed =>
    match n.fill with
    | .listing _ | .asking _ | .claimed _ _ => some { n with fill := .idle }
    | _ => none
  | .released => if n.fill = .releasing then some (n.endRound settings) else none
  | .finish attempt outcome now retryDelayMs =>
    if attempt ∈ n.attempts then n.finish queueSettings attempt outcome now retryDelayMs
    else none
  | .record attempt =>
    match attempt.claim.stage, attempt.write with
    | .recording outcome now, .pending =>
      if attempt ∈ n.attempts then some (n.recordAtStore attempt outcome now) else none
    | _, _ => none
  | .settle attempt =>
    match attempt.claim.stage with
    | .recording _ _ =>
      if attempt ∈ n.attempts then
        some ({ n with queue := n.queue.without [attempt.claim] }.settleAndFill settings attempt)
      else none
    | _ => none
  | .stop => if n.phase = .running then some { n with phase := .stopping } else none
  | .giveUp =>
    if n.phase = .stopping then
      (n.queue.stepWorker queueSettings (.giveUp (n.left.map (·.claim)))).map fun queue ↦
        n.left.foldl settled { n with queue := queue }
    else none
  | .stopped => if n.phase = .stopping then some { n with phase := .stopped } else none
  | .other a =>
    if ∀ c ∈ a.claims, ∀ attempt ∈ n.attempts ++ n.fill.claims, attempt.claim ≠ c then
      (n.queue.step queueSettings a).map fun queue ↦ { n with queue := queue }
    else none

/-- No row is claimed under the attempt of a hold whose answer the node still awaits. -/
def HoldsAnswered (n : Runner) : RunnerAction → Prop
  | .claim now locked => ∀ attempt ∈ n.attempts, attempt.write = .heldBack →
    ∀ row ∈ n.queue.fan.deliveries,
      row.id ∈ picked n.queue.fan.log.events (request settings n.fill.picks now) locked
        n.queue.fan.deliveries →
      attempt.claim.ref ≠ ⟨row.id, row.attemptCount + 1⟩
  | _ => True

instance (n : Runner) (a : RunnerAction) : Decidable (n.HoldsAnswered settings a) :=
  match a with
  | .claim now locked => inferInstanceAs (Decidable (∀ attempt ∈ n.attempts,
      attempt.write = .heldBack → ∀ row ∈ n.queue.fan.deliveries,
        row.id ∈ picked n.queue.fan.log.events (request settings n.fill.picks now) locked
          n.queue.fan.deliveries →
        attempt.claim.ref ≠ ⟨row.id, row.attemptCount + 1⟩))
  | .fill | .listed _ | .claimed | .fillFailed | .released | .finish _ _ _ _ | .record _
  | .settle _ | .stop | .giveUp | .stopped | .other _ => inferInstanceAs (Decidable True)

end Runner

end QAuth.Delivery
