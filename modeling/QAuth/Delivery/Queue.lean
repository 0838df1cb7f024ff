import QAuth.Delivery.FanOut
import QAuth.Foundation.Run

/-!
# The delivery role over its store

Any number of workers claim due rows, hand the events to their routes and record the outcome,
while the fan-out writes new rows and other transactions write events. A worker makes one
statement for each claim it holds: it records the outcome of the attempt, or, when it gives the
attempt up, releases the row. The statement reaches the store at any later time, or never.
-/

namespace QAuth.Delivery

open Events

/-- How long a delivery the route holds waits before the role asks again. -/
def DELIVERY_HOLD_INTERVAL_MS : ℕ := 30000

/-- How one attempt ended. -/
inductive DeliveryOutcome
  | ok (statusCode : Option ℕ)
  | failed (errorClass : String) (statusCode : Option ℕ) (retry : Bool)
  | hold

/-- The record of an attempt's outcome: a failure is retried while the claim's attempt is below
the maximum and the route did not refuse for good. -/
def attemptRecord (maxAttempts attempt now retryDelayMs : ℕ) :
    DeliveryOutcome → EventDeliveryAttemptRecord
  | .ok statusCode => .delivered statusCode
  | .hold => .hold (now + DELIVERY_HOLD_INTERVAL_MS)
  | .failed errorClass statusCode retry =>
    if retry && attempt < maxAttempts then
      .retry (now + retryDelayMs) statusCode errorClass
    else .failed statusCode errorClass

/-- What a worker does with a claim. -/
inductive Stage
  /-- The route runs, or was never called. -/
  | attempting
  /-- The outcome's write is on its way. -/
  | recording (record : EventDeliveryAttemptRecord) (now : ℕ)
  /-- The worker gave the attempt up, and its release is on its way. -/
  | releasing
  deriving DecidableEq

/-- A claim a worker holds. -/
structure InFlight where
  /-- Numbers the claims in the order they were made; no code reads it. -/
  serial : ℕ
  worker : ℕ
  ref : EventDeliveryClaimRef
  stage : Stage
  deriving DecidableEq

namespace InFlight

def setStage (stage : Stage) (c : InFlight) : InFlight := { c with stage := stage }

theorem refs_setStage {p : InFlight → Bool} {stage : Stage} {claims : List InFlight} :
    (Table.updateWhere p (setStage stage) claims).map (·.ref) = claims.map (·.ref) :=
  Table.map_updateWhere fun _ ↦ rfl

theorem serials_setStage {p : InFlight → Bool} {stage : Stage} {claims : List InFlight} :
    (Table.updateWhere p (setStage stage) claims).map (·.serial) = claims.map (·.serial) :=
  Table.map_updateWhere fun _ ↦ rfl

end InFlight

/-- The store and the claims of its workers. -/
structure Queue where
  fan : FanOutState
  inFlight : List InFlight
  /-- The number of claims made so far. -/
  serials : ℕ

/-- What a worker does. -/
inductive WorkerAction
  /-- A worker claims rows; `locked` are the rows whose locks other statements hold. -/
  | claim (worker : ℕ) (request : EventDeliveryClaimRequest) (locked : List Uuid)
  /-- An attempt ended, at `now` on the worker's clock. -/
  | finish (claim : InFlight) (outcome : DeliveryOutcome) (now retryDelayMs : ℕ)
  /-- A worker that stops gives up attempts whose route still runs, or that it never began. -/
  | giveUp (claims : List InFlight)
  /-- The write of an outcome reaches the store. -/
  | record (claim : InFlight)
  /-- A release reaches the store. -/
  | release (claims : List InFlight) (now : ℕ)
  /-- A worker dies, or a statement of it fails: the claim does nothing any more. -/
  | lose (claim : InFlight)

inductive Action
  | writer (a : EventLog.WriterAction)
  | fanOut (a : FanOutAction)
  | worker (a : WorkerAction)

/-- The settings of the nodes. -/
structure Settings where
  /-- The hash the advisory lock of a stream is taken on. -/
  lockKey : Stream → ℕ
  /-- The attempts each worker gives a delivery. -/
  maxAttempts : ℕ → ℕ

namespace Queue

/-- The claims a worker got, numbered. -/
def newClaims (worker serials : ℕ) (refs : List EventDeliveryClaimRef) : List InFlight :=
  (refs.zipIdx serials).map fun x ↦ ⟨x.2, worker, x.1, .attempting⟩

theorem newClaims_refs {worker serials : ℕ} {refs : List EventDeliveryClaimRef} :
    (newClaims worker serials refs).map (·.ref) = refs := by
  simp [newClaims, Function.comp_def]

theorem newClaims_serials {worker serials : ℕ} {refs : List EventDeliveryClaimRef} :
    (newClaims worker serials refs).map (·.serial) = List.range' serials refs.length := by
  simp [newClaims, Function.comp_def, ← List.zipIdx_map_snd]

theorem serial_of_mem_newClaims {worker serials : ℕ} {refs : List EventDeliveryClaimRef}
    {c : InFlight} (h : c ∈ newClaims worker serials refs) :
    serials ≤ c.serial ∧ c.serial < serials + refs.length := by
  have hmem : c.serial ∈ (newClaims worker serials refs).map (·.serial) :=
    List.mem_map_of_mem h
  rwa [newClaims_serials, List.mem_range'_1] at hmem

/-- The state with other delivery rows. -/
def withDeliveries (s : Queue) (deliveries : List EventDelivery) : Queue :=
  { s with fan := { s.fan with deliveries := deliveries } }

/-- The state without these claims. -/
def without (s : Queue) (claims : List InFlight) : Queue :=
  { s with inFlight := s.inFlight.filter fun c ↦ !claims.contains c }

def stepWorker (settings : Settings) (s : Queue) : WorkerAction → Option Queue
  | .claim worker request locked =>
    if request.maxAttempts = settings.maxAttempts worker then
      let refs := claimRefs s.fan.log.events request locked s.fan.deliveries
      some {
        fan := { s.fan with deliveries := claim s.fan.log.events request locked s.fan.deliveries }
        inFlight := s.inFlight ++ newClaims worker s.serials refs
        serials := s.serials + refs.length }
    else none
  | .finish c outcome now retryDelayMs =>
    if c ∈ s.inFlight ∧ c.stage = .attempting then
      let record := attemptRecord (settings.maxAttempts c.worker) c.ref.attempt now retryDelayMs
        outcome
      some { s with
        inFlight := Table.updateWhere (· = c) (InFlight.setStage (.recording record now))
          s.inFlight }
    else none
  | .giveUp claims =>
    if ∀ c ∈ claims, c ∈ s.inFlight ∧ c.stage = .attempting then
      some { s with
        inFlight := Table.updateWhere (claims.contains ·) (InFlight.setStage .releasing)
          s.inFlight }
    else none
  | .record c =>
    match c.stage with
    | .recording outcome now =>
      if c ∈ s.inFlight then
        some ((s.withDeliveries (record c.ref outcome now s.fan.deliveries)).without [c])
      else none
    | _ => none
  | .release claims now =>
    if ∀ c ∈ claims, c ∈ s.inFlight ∧ c.stage = .releasing then
      some ((s.withDeliveries
        (release (claims.map (·.ref)) now s.fan.deliveries)).without claims)
    else none
  | .lose c => if c ∈ s.inFlight then some (s.without [c]) else none

def step (settings : Settings) (s : Queue) : Action → Option Queue
  | .writer a => (s.fan.log.step a).map fun log ↦ { s with fan := { s.fan with log := log } }
  | .fanOut a => (s.fan.step settings.lockKey a).map fun fan ↦ { s with fan := fan }
  | .worker a => s.stepWorker settings a

/-- What a worker's step can do, with what its guards checked. -/
inductive WorkerStep (settings : Settings) (s : Queue) : WorkerAction → Queue → Prop
  | claim (worker : ℕ) (request : EventDeliveryClaimRequest) (locked : List Uuid)
      (max : request.maxAttempts = settings.maxAttempts worker) :
      WorkerStep settings s (.claim worker request locked) {
        fan := { s.fan with
          deliveries := Delivery.claim s.fan.log.events request locked s.fan.deliveries }
        inFlight := s.inFlight ++ newClaims worker s.serials
          (claimRefs s.fan.log.events request locked s.fan.deliveries)
        serials := s.serials +
          (claimRefs s.fan.log.events request locked s.fan.deliveries).length }
  | advance (a : WorkerAction) (p : InFlight → Bool) (stage : Stage) :
      WorkerStep settings s a
        { s with inFlight := Table.updateWhere p (InFlight.setStage stage) s.inFlight }
  | record (c : InFlight) (outcome : EventDeliveryAttemptRecord) (now : ℕ)
      (mem : c ∈ s.inFlight) (stage : c.stage = .recording outcome now) :
      WorkerStep settings s (.record c)
        ((s.withDeliveries (Delivery.record c.ref outcome now s.fan.deliveries)).without [c])
  | release (claims : List InFlight) (now : ℕ)
      (mem : ∀ c ∈ claims, c ∈ s.inFlight ∧ c.stage = .releasing) :
      WorkerStep settings s (.release claims now)
        ((s.withDeliveries
          (Delivery.release (claims.map (·.ref)) now s.fan.deliveries)).without claims)
  | lose (c : InFlight) : WorkerStep settings s (.lose c) (s.without [c])

/-- What any step can do. -/
inductive Step (settings : Settings) (s : Queue) : Action → Queue → Prop
  | writer (a : EventLog.WriterAction) (log : EventLog) (step : s.fan.log.step a = some log) :
      Step settings s (.writer a) { s with fan := { s.fan with log := log } }
  | fanOut (a : FanOutAction) (fan : FanOutState)
      (step : s.fan.step settings.lockKey a = some fan) :
      Step settings s (.fanOut a) { s with fan := fan }
  | worker (a : WorkerAction) (t : Queue) (step : WorkerStep settings s a t) :
      Step settings s (.worker a) t

variable {settings : Settings} {s t : Queue} {a : Action}

theorem stepWorker_cases {a : WorkerAction} (h : s.stepWorker settings a = some t) :
    WorkerStep settings s a t := by
  cases a with
  | claim worker request locked =>
    simp only [stepWorker] at h
    split at h
    · cases h
      exact .claim worker request locked ‹_›
    · cases h
  | finish c outcome now retryDelayMs =>
    simp only [stepWorker] at h
    split at h
    · cases h
      exact .advance _ _ _
    · cases h
  | giveUp claims =>
    simp only [stepWorker] at h
    split at h
    · cases h
      exact .advance _ _ _
    · cases h
  | record c =>
    simp only [stepWorker] at h
    split at h
    · split at h
      · cases h
        exact .record c _ _ ‹_› ‹_›
      · cases h
    · cases h
  | release claims now =>
    simp only [stepWorker] at h
    split at h
    · cases h
      exact .release claims now ‹_›
    · cases h
  | lose c =>
    simp only [stepWorker] at h
    split at h
    · cases h
      exact .lose c
    · cases h

theorem step_cases (h : s.step settings a = some t) : Step settings s a t := by
  cases a with
  | writer a =>
    obtain ⟨log, hlog, rfl⟩ := Option.map_eq_some_iff.mp h
    exact .writer a log hlog
  | fanOut a =>
    obtain ⟨fan, hfan, rfl⟩ := Option.map_eq_some_iff.mp h
    exact .fanOut a fan hfan
  | worker a => exact .worker a t (stepWorker_cases h)

end Queue

/-- The delivery role over its store: it begins with any events, committed or being written, and
nothing fanned out. -/
def queueSystem (settings : Settings) : Transition.System Queue Action where
  initial s := s.fan.positions = [] ∧ s.fan.deliveries = [] ∧ s.fan.pages = [] ∧ s.inFlight = []
  step := Queue.step settings

/-- A store without events, and no worker. -/
def Queue.empty : Queue := ⟨⟨.empty, [], [], []⟩, [], 0⟩

theorem Queue.empty_initial (settings : Settings) : (queueSystem settings).initial .empty :=
  ⟨rfl, rfl, rfl, rfl⟩

/-! ### A small deployment

One realm, one destination that takes every event, one stream: the runs that witness the results
of the later modules are made of its actions. -/

namespace Sample

def settings : Settings := ⟨fun _ ↦ 0, fun _ ↦ 2⟩

def webhook : EventDeliveryDestination := ⟨"webhook", "w1", 7, none, none, none, []⟩

def stream : Stream := ⟨7, "webhook"⟩

theorem pageSize_pos : 1 ≤ 500 := by decide

def request : FanOutRequest := ⟨["webhook"], [webhook], 0, 500, 10, [], pageSize_pos⟩

/-- The same fan-out, with a day's backfill window. -/
def backfilledRequest : FanOutRequest :=
  ⟨["webhook"], [webhook], 10, 500, 10, [("webhook", 86400000)], pageSize_pos⟩

def startPage (request : FanOutRequest) : List Action :=
  [.fanOut (.lock request stream), .fanOut (.readPosition stream), .fanOut (.start stream),
    .fanOut (.commit stream [])]

/-- A page that reads the stream and writes rows with these ids. -/
def deliverPage (request : FanOutRequest) (ids : List Uuid) : List Action :=
  [.fanOut (.lock request stream), .fanOut (.readPosition stream), .fanOut (.readEvents stream),
    .fanOut (.commit stream ids)]

/-- A transaction that writes one event at time 3. -/
def writeEvent (xid : ℕ) (id : Uuid) : List Action :=
  [.writer (.begin xid), .writer (.emit xid ⟨id, 7, .user, "t", 3, none, none, none, 1⟩),
    .writer (.commit xid)]

/-- A worker claims one row of the destination, for 10 milliseconds. -/
def claimOne (worker now : ℕ) : Action :=
  .worker (.claim worker ⟨[⟨"webhook", "w1", 1⟩], now, 10, 2⟩ [])

end Sample

end QAuth.Delivery
