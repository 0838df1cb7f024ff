import QAuth.Egress.Address
import QAuth.Foundation.Run
import Mathlib.Logic.Function.Basic
import Mathlib.Tactic.Simps.Basic

/-!
# The pool of fetch processes

`createProcessPool` of `process-pool.ts`, as a transition system. A process is named by a number,
and what a process record holds is kept after the process has exited, as an object of the program
is. What the environment decides is part of an event: whether a process can be spawned and reached
(`Launch`), which frames it sends and when, which timer fires, which signal aborts.
-/

namespace QAuth.Egress

/-- The bounds of a pool. -/
structure ProcessPoolLimits where
  maxProcesses : ℕ
  maxProcessesPerFamily : ℕ
  maxWaiting : ℕ
  maxWaitingPerFamily : ℕ

/-- Which IP literal a host is: `0`, `4` or `6`. -/
inductive LiteralFamily
  | name
  | ipv4
  | ipv6

/-- The family a destination host belongs to, by the registrable domain of a name. -/
def hostFamily (getDomain : JsString → Option JsString) (hostname : JsString) :
    LiteralFamily → JsString
  | .ipv4 => hostname
  | .ipv6 =>
    match parseIpv6 hostname with
    | none => hostname
    | some bytes =>
      let hextets := [0, 2, 4, 6].map fun i ↦
        (Nat.toDigits 16 (bytes.getD i 0 * 256 + bytes.getD (i + 1) 0)).flatMap Text.unitsOf
      [unit ':'].intercalate hextets ++ units "::/64"
  | .name => (getDomain hostname).getD hostname

/-- A call of the pool, told from others by its number, with the signal that may abort it. -/
structure Call where
  number : ℕ
  job : ExchangeJob
  family : JsString
  signal : ℕ
deriving DecidableEq

/-- One fetch process. -/
structure FetchProcess where
  call : Option Call
  id : UInt32
  family : Option JsString
  ending : Bool
  ready : Bool
  secured : Bool
  connectTimer : Option Call
  idleTimer : Bool
  reader : Reader

namespace FetchProcess

/-- A process that was just spawned. -/
def spawned : FetchProcess where
  call := none
  id := 0
  family := none
  ending := false
  ready := false
  secured := false
  connectTimer := none
  idleTimer := false
  reader := .start

def absent : FetchProcess := { spawned with ending := true }

end FetchProcess

/-- A listener of the pool on the signal of a call. -/
inductive Listener
  | onWaitAbort (call : Call)
  | onCallAbort (p : ℕ) (call : Call)
deriving DecidableEq

/-- The call whose signal is listened to. -/
def Listener.call : Listener → Call
  | .onWaitAbort call => call
  | .onCallAbort _ call => call

/-- What the pool keeps, with the signals and their listeners, and the calls and their answers. -/
structure Pool where
  /-- The live processes. -/
  processes : List ℕ
  /-- The records of the processes. -/
  proc : ℕ → FetchProcess
  /-- The number of the next process. -/
  nextProcess : ℕ
  idle : List ℕ
  held : JsString → ℕ
  waiting : List Call
  waitingByFamily : JsString → ℕ
  deadlineKills : ℕ
  nextId : UInt32
  closed : Bool
  listeners : List Listener
  aborted : ℕ → Bool
  /-- Every call made. -/
  calls : List Call
  /-- Every answer given. -/
  answers : List (Call × ExchangeOutcome)

def createProcessPool : Pool where
  processes := []
  proc _ := .absent
  nextProcess := 0
  idle := []
  held _ := 0
  waiting := []
  waitingByFamily _ := 0
  deadlineKills := 0
  nextId := 0
  closed := false
  listeners := []
  aborted _ := false
  calls := []
  answers := []

/-- A count once it has changed; one of zero is left out. -/
def bump (counts : JsString → ℕ) (key : JsString) (change : ℤ) : JsString → ℕ :=
  Function.update counts key (counts key + change).toNat

def failed (job : ExchangeJob) (reason : ExchangeFailureReason) (what : String) : ExchangeOutcome :=
  .failed reason (failurePrefix job ++ units what)

/-! ### Processes and calls -/

/-- The largest exchange id. -/
def MAX_EXCHANGE_ID : UInt32 := 0xffffffff

/-- Answer a call; only the first answer counts. -/
def settle (call : Call) (outcome : ExchangeOutcome) (s : Pool) : Pool :=
  if s.answers.any (·.1 = call) then s else { s with answers := s.answers ++ [(call, outcome)] }

/-- Change the record of a process. -/
@[simps] def modify (p : ℕ) (f : FetchProcess → FetchProcess) (s : Pool) : Pool :=
  { s with proc := Function.update s.proc p (f (s.proc p)) }

/-- Take a listener off its signal. -/
@[simps] def removeListener (l : Listener) (s : Pool) : Pool :=
  { s with listeners := s.listeners.filter (· ≠ l) }

section Limits

variable (limits : ProcessPoolLimits)

/-- Whether a call of a family may start now. -/
def canStart (family : JsString) (s : Pool) : Bool :=
  s.held family < limits.maxProcessesPerFamily &&
    (0 < s.idle.length || s.processes.length < limits.maxProcesses)

end Limits

def leaveIdle (p : ℕ) (s : Pool) : Pool :=
  { modify p (fun proc ↦ { proc with idleTimer := false }) s with idle := s.idle.erase p }

/-- End the running call of a process, if any. -/
def endCall (p : ℕ) (outcome : ExchangeOutcome) (s : Pool) : Pool :=
  match (s.proc p).call with
  | none => s
  | some call =>
    settle call outcome (removeListener (.onCallAbort p call)
      (modify p (fun proc ↦ { proc with call := none, connectTimer := none }) s))

def releaseFamily (p : ℕ) (s : Pool) : Pool :=
  match (s.proc p).family with
  | none => s
  | some family =>
    { modify p (fun proc ↦ { proc with family := none }) s with held := bump s.held family (-1) }

/-- Kill a process; its call, if it runs one, ends with the outcome, if there is one. -/
def kill (p : ℕ) (outcome : Option ExchangeOutcome) (atDeadline : Bool) (s : Pool) : Pool :=
  let s := if atDeadline then { s with deadlineKills := s.deadlineKills + 1 } else s
  let s := leaveIdle p (modify p (fun proc ↦ { proc with ending := true }) s)
  match outcome with
  | none => s
  | some outcome => endCall p outcome s

/-- The failure of the call of a process, if it runs one. -/
def callFailed (p : ℕ) (what : String) (s : Pool) : Option ExchangeOutcome :=
  (s.proc p).call.map fun call ↦ failed call.job .network what

/-- What a failed write does. -/
def unreachable (p : ℕ) (s : Pool) : Pool :=
  if (s.proc p).ending then s
  else kill p (callFailed p "the fetch process could not be reached" s) false s

/-- Write a frame, which is encoded and reaches the channel, or not. -/
def send (p : ℕ) (reached : Bool) (s : Pool) : Pool :=
  if reached then s else unreachable p s

def startConnectTimer (p : ℕ) (call : Call) (s : Pool) : Pool :=
  modify p (fun proc ↦ { proc with connectTimer := some call }) s

/-- Kill a process for a frame it should not have sent. -/
def refuse (p : ℕ) (what : String) (s : Pool) : Pool :=
  if (s.proc p).ending then s else kill p (callFailed p what s) false s

/-! ### Starting calls -/

/-- How the start of a call goes: whether a process is spawned if none is idle, and whether its
first frame and the call's reach it. -/
structure Launch where
  spawned : Bool
  init : Bool
  exchange : Bool

def spawnProcess (launch : Launch) (s : Pool) : Pool :=
  send s.nextProcess launch.init
    { s with
      processes := s.processes ++ [s.nextProcess]
      proc := Function.update s.proc s.nextProcess .spawned
      nextProcess := s.nextProcess + 1 }

/-- The id after an id. -/
def nextExchangeId (id : UInt32) : UInt32 := if MAX_EXCHANGE_ID ≤ id then 1 else id + 1

/-- Start a call on a process. -/
def startOn (launch : Launch) (call : Call) (p : ℕ) (s : Pool) : Pool :=
  let s := leaveIdle p s
  let id := nextExchangeId s.nextId
  let s := modify p (fun proc ↦
    { proc with id := id, call := some call, secured := false, family := some call.family })
    { s with nextId := id }
  let s := { s with held := bump s.held call.family 1 }
  let s := if (s.proc p).ready then startConnectTimer p call s else s
  let s := { s with listeners := s.listeners ++ [.onCallAbort p call] }
  send p launch.exchange s

def start (launch : Launch) (call : Call) (s : Pool) : Pool :=
  match s.idle.getLast? with
  | some p => startOn launch call p { s with idle := s.idle.dropLast }
  | none =>
    if launch.spawned then startOn launch call s.nextProcess (spawnProcess launch s)
    else settle call (failed call.job .network "no fetch process could be started") s

section Drain

variable (limits : ProcessPoolLimits) (launch : Call → Launch)

/-- The loop of `drain`, with the calls that stay before the place it has come to and those from
there on. -/
def drainFrom (passed : List Call) : List Call → Pool → Pool
  | [], s => s
  | call :: rest, s =>
    if s.closed || !canStart limits call.family s then drainFrom (passed ++ [call]) rest s
    else
      drainFrom passed rest (start (launch call) call (removeListener (.onWaitAbort call)
        { s with
          waiting := passed ++ rest
          waitingByFamily := bump s.waitingByFamily call.family (-1) }))

/-- Start every waiting call that may start now, in the order they came. -/
def drain (s : Pool) : Pool := drainFrom limits launch [] s.waiting s

def onExit (p : ℕ) (s : Pool) : Pool :=
  if p ∈ s.processes then
    let s := { s with processes := s.processes.erase p }
    let s := leaveIdle p (modify p (fun proc ↦ { proc with ending := true }) s)
    let s := match callFailed p "the fetch process ended without a result" s with
      | none => s
      | some outcome => endCall p outcome s
    drain limits launch (releaseFamily p s)
  else s

/-- A whole frame from a process; `false` stops the reading. -/
def onFrame (p type : ℕ) (payload : List UInt8) (s : Pool) : Bool × Pool :=
  if type = FRAME.ready then
    let s := modify p (fun proc ↦ { proc with ready := true }) s
    (true, match (s.proc p).call with
      | none => s
      | some call => startConnectTimer p call s)
  else
    let invalid := (false, refuse p "the fetch process sent an invalid answer" s)
    match (s.proc p).call with
    | none => invalid
    | some call =>
      match parseFetchProcessFrame type payload (s.proc p).id call.job with
      | none => invalid
      | some (.secured _) =>
        if (s.proc p).secured then invalid
        else (true, modify p (fun proc ↦ { proc with secured := true, connectTimer := none }) s)
      | some (.outcome _ outcome) =>
        let s := releaseFamily p (endCall p outcome s)
        let s := if (s.proc p).ending then s
          else { modify p (fun proc ↦ { proc with idleTimer := true }) s with idle := s.idle ++ [p] }
        (true, drain limits launch s)

/-- The rules of the reader of a process. -/
def frameRules (p : ℕ) : FrameRules (StateM Pool) where
  limit type := fun s ↦
    (fetchProcessFrameLimit type
      ⟨(s.proc p).ready, (s.proc p).call.map (·.job), (s.proc p).secured⟩, s)
  frame type payload := onFrame limits launch p type payload
  refuse _ _ oversized := fun s ↦
    ((), refuse p (if oversized then "the fetch process sent a frame above its size cap"
      else "the fetch process sent an invalid answer") s)

/-- A chunk from the channel of a process. -/
def onData (p : ℕ) (chunk : List UInt8) (s : Pool) : Pool :=
  if (s.proc p).ending then s
  else
    let (reader, s) := (push (frameRules limits launch p) (s.proc p).reader chunk).run s
    modify p (fun proc ↦ { proc with reader := reader }) s

end Drain

/-! ### The calls of the pool -/

section Exchange

variable (limits : ProcessPoolLimits)

def exchange (launch : Launch) (call : Call) (s : Pool) : Pool :=
  let s := { s with calls := s.calls ++ [call] }
  if s.closed then settle call (failed call.job .network "the egress client is closed") s
  else if s.aborted call.signal then settle call (failed call.job .timeout "the call timed out") s
  else if canStart limits call.family s then start launch call s
  else if limits.maxWaiting ≤ s.waiting.length ∨
      limits.maxWaitingPerFamily ≤ s.waitingByFamily call.family then
    settle call (failed call.job .busy "too many calls in progress") s
  else
    { s with
      waiting := s.waiting ++ [call]
      waitingByFamily := bump s.waitingByFamily call.family 1
      listeners := s.listeners ++ [.onWaitAbort call] }

end Exchange

def fire (l : Listener) (s : Pool) : Pool :=
  match l with
  | .onWaitAbort call =>
    let s := if call ∈ s.waiting then
      { s with
        waiting := s.waiting.erase call
        waitingByFamily := bump s.waitingByFamily call.family (-1) }
      else s
    settle call (failed call.job .timeout "the call timed out") s
  | .onCallAbort p call => kill p (some (failed call.job .timeout "the call timed out")) true s

/-- A signal aborts: its listeners run, each once, in the order they were added. They do not read
whether it is aborted. -/
def abort (signal : ℕ) (s : Pool) : Pool :=
  let listeners := s.listeners.filter (·.call.signal = signal)
  let s := listeners.foldl
    (fun s l ↦ if l ∈ s.listeners then fire l (removeListener l s) else s) s
  { s with aborted := Function.update s.aborted signal true }

/-- Refuse waiting and new calls, and kill every process. -/
def close (s : Pool) : Pool :=
  let waiting := s.waiting
  let s := { s with closed := true, waiting := [] }
  let s := waiting.foldl (fun s call ↦
    settle call (failed call.job .network "the egress client is closed")
      (removeListener (.onWaitAbort call) s)) s
  let s := { s with waitingByFamily := fun _ ↦ 0 }
  s.processes.foldl
    (fun s p ↦ kill p (callFailed p "the egress client is closed" s) false s) s

/-! ### The system -/

/-- What happens to the pool. -/
inductive PoolEvent
  /-- A call, of a host that is a literal or not, with the signal that may abort it. -/
  | exchange (job : ExchangeJob) (literalFamily : LiteralFamily) (signal : ℕ) (launch : Launch)
  | abort (signal : ℕ)
  /-- A chunk from a process. -/
  | data (p : ℕ) (chunk : List UInt8) (launch : Call → Launch)
  /-- A write to a process failed. -/
  | writeFailed (p : ℕ)
  /-- The channel of a process failed or closed. -/
  | lost (p : ℕ)
  /-- A process exited. -/
  | exit (p : ℕ) (launch : Call → Launch)
  /-- A process reports an error, and that it never started, or not. -/
  | error (p : ℕ) (started : Bool) (launch : Call → Launch)
  | connectTimeout (p : ℕ)
  | idleTimeout (p : ℕ)
  | close

/-- What an event does. A timer fires only while it is set. -/
def PoolEvent.step (limits : ProcessPoolLimits) (getDomain : JsString → Option JsString) (s : Pool) :
    PoolEvent → Option Pool
  | .exchange job literalFamily signal launch =>
    some (QAuth.Egress.exchange limits launch
      ⟨s.calls.length, job, hostFamily getDomain job.hostname literalFamily, signal⟩ s)
  | .abort signal => some (QAuth.Egress.abort signal s)
  | .data p chunk launch => some (onData limits launch p chunk s)
  | .writeFailed p => some (unreachable p s)
  | .lost p => some (if (s.proc p).ending then s else kill p none false s)
  | .exit p launch => some (onExit limits launch p s)
  | .error p started launch =>
    some (if !started then onExit limits launch p s
      else if (s.proc p).ending then s
      else kill p (callFailed p "the fetch process failed" s) false s)
  | .connectTimeout p =>
    (s.proc p).connectTimer.map fun call ↦
      kill p (some (failed call.job .timeout "the connection timed out")) true
        (modify p (fun proc ↦ { proc with connectTimer := none }) s)
  | .idleTimeout p => if (s.proc p).idleTimer then some (kill p none false s) else none
  | .close => some (QAuth.Egress.close s)

def pool (limits : ProcessPoolLimits) (getDomain : JsString → Option JsString) :
    Transition.System Pool PoolEvent where
  initial s := s = createProcessPool
  step := PoolEvent.step limits getDomain

end QAuth.Egress
