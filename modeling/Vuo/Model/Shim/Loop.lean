import Mathlib.Algebra.Group.Nat.Defs
import Vuo.Model.Shim.Worker

/-!
# The worker's loop

One thread serves the commands of the pages in order and, between them, what
falls due by itself. The thread of the pages sends, and raises the spinner for
a refresh before it sends; each of their accesses to the flag and to the
channel is a step of its own.
-/

namespace Vuo.Shim.Loop

/-! ## Deadlines -/

/-- A moment of the monotonic clock, in nanoseconds. -/
abbrev Instant := ℕ

def instantMax : Instant :=
  2 ^ 63 * 10 ^ 9 - 1

/-- `Instant::checked_add`, of whole seconds. -/
def checkedAdd (now : Instant) (secs : ℕ) : Option Instant :=
  if now + secs * 10 ^ 9 ≤ instantMax then some (now + secs * 10 ^ 9) else none

def flushDebounce : ℕ := 45

def flushAfterStart : ℕ := 10

inductive DueWork
  | sync
  | flush
  deriving DecidableEq

def earliest (a b : Option Instant) : Option Instant :=
  match a, b with
  | some a, some b => some (min a b)
  | a, b => a.or b

/-- A window is a maximum age: later requests leave it. -/
def armFlush (flushDue : Option Instant) (now : Instant) : Option Instant :=
  flushDue.or (checkedAdd now flushDebounce)

/-- `u64::checked_mul` -/
def checkedMul (a b : ℕ) : Option ℕ :=
  if a * b < 2 ^ 64 then some (a * b) else none

def nextIntervalAfter (intervalMinutes : Option ℤ) (now : Instant) : Option Instant :=
  (intervalMinutes.bind fun minutes => checkedMul (max minutes 1).natAbs 60).bind (checkedAdd now)

/-- A sync that is due takes a waiting flush with it. -/
def dueWork (nextSync flushDue : Option Instant) (now : Instant) : Option DueWork :=
  if nextSync.any (· ≤ now) then some .sync
  else if flushDue.any (· ≤ now) then some .flush
  else none

/-- Seconds to wait before the next automatic pass. -/
def nextSyncDelay (intervalMinutes lastSync : Option ℤ) (now : ℤ) : Option ℕ :=
  intervalMinutes.map fun minutes =>
    match lastSync with
    | none => 10
    | some last =>
        let dueAt := saturatingAdd last (saturate (minutes * 60))
        max (max (saturatingSub dueAt now) 0).natAbs 10

/-! ## Messages -/

/-- A command that needs an account. -/
inductive Work
  | command (c : Command)
  | testConnection

def Work.clearsSpinner : Work → Bool
  | command c => Shim.clearsSpinner c
  | testConnection => false

inductive Message
  | work (w : Work)
  | configure
  | setSyncInterval (minutes : Option ℤ)
  | setRetention (seconds : Option ℤ)
  | setWifiOnly (enabled : Bool)
  | shutdown

/-- A refresh the reader asked for. -/
def Message.isSync : Message → Bool
  | work w => w.clearsSpinner
  | _ => false

def Message.isShutdown : Message → Bool
  | shutdown => true
  | _ => false

/-! ## The two threads -/

/-- The variables of the loop. Of the account it matters here whether its
database opened and its client was built. -/
structure Vars where
  db : Bool
  client : Bool
  interval : Option ℤ
  nextSync : Option Instant
  retention : Option ℤ
  flushDue : Option Instant
  wifiOnly : Bool

def Vars.start : Vars where
  db := false
  client := false
  interval := none
  nextSync := none
  retention := none
  flushDue := none
  wifiOnly := false

/-- What the worker reads of its surroundings in an iteration: the two clocks,
the stamp of the last pass, what becomes of a new account, how many intents
its outbox holds, and whether the network allows automatic work. -/
structure Reading where
  now : Instant
  clock : ℤ
  lastSync : Option ℤ
  opened : Bool
  built : Bool
  pending : Option ℕ
  allowed : Bool → Bool

/-- Where the worker is. `working` is inside the arm of a command, `bumping`
at the end of the guard's drop. -/
inductive Phase
  | starting
  | waiting
  | working (w : Work)
  | bumping
  | gone

/-- Where the thread of the pages is: a refresh raises the flag, then sends,
and lowers it again when there is no one to send to. -/
inductive Pages
  | idle
  | sending
  | lowering
  | joining
  deriving DecidableEq

structure State where
  signal : SyncSignal
  queue : List Message
  vars : Vars
  phase : Phase
  pages : Pages

def State.start : State where
  signal := SyncSignal.default
  queue := []
  vars := Vars.start
  phase := .starting
  pages := .idle

/-- The channel has a receiver until the thread is gone. -/
def Phase.receives : Phase → Bool
  | gone => false
  | _ => true

namespace State

def send (m : Message) (s : State) : State :=
  if s.phase.receives then { s with queue := s.queue ++ [m] } else s

/-! ### The pages -/

/-- `requestSync` from the flag on: the flag, ... -/
def requestSync (s : State) : State :=
  { s with signal := s.signal.setRunning true, pages := .sending }

/-- ... the command, ... -/
def sendSync (s : State) : State :=
  if s.phase.receives then
    { s.send (.work (.command .sync)) with pages := .idle }
  else { s with pages := .lowering }

/-- ... and the flag again if the worker is gone. -/
def lower (s : State) : State :=
  { s with signal := s.signal.setRunning false, pages := .idle }

/-- `Drop` of the worker's handle: it sends and waits for the thread. -/
def dropWorker (s : State) : State :=
  { s.send .shutdown with pages := .joining }

/-! ### The worker -/

/-- The runtime is up, or the thread ends. -/
def started (ok : Bool) (s : State) : State :=
  if ok then { s with phase := .waiting } else { s with phase := .gone, queue := [] }

/-- A command that needs an account is dropped when there is no usable one. -/
def begin (w : Work) (s : State) : State :=
  if s.vars.db && s.vars.client then
    match w with
    | .command .sync | .command .flushOutbox =>
        { s with phase := .working w, vars := { s.vars with flushDue := none } }
    | _ => { s with phase := .working w }
  else s

/-- Serve another account, or none if it cannot be. -/
def configure (r : Reading) (v : Vars) : Vars :=
  { v with
    db := r.opened
    client := r.built
    nextSync := (nextSyncDelay v.interval r.lastSync r.clock).bind (checkedAdd r.now)
    flushDue :=
      if r.opened then
        (r.pending.filter (0 < ·)).bind fun _ => checkedAdd r.now flushAfterStart
      else none }

/-- One command off the channel. The thread of the pages waits while the worker
stops, so what the stop does to the flag and to the channel is one step. -/
def serve (m : Message) (r : Reading) (s : State) : State :=
  match m with
  | .work (.command .flushOutbox) =>
      { s with vars := { s.vars with flushDue := armFlush s.vars.flushDue r.now } }
  | .work w => s.begin w
  | .shutdown =>
      { s with signal := s.signal.setRunning false, queue := [], phase := .gone }
  | .configure => { s with vars := configure r s.vars }
  | .setSyncInterval minutes =>
      { s with
        vars := { s.vars with
          interval := minutes
          nextSync := (nextSyncDelay minutes r.lastSync r.clock).bind (checkedAdd r.now) } }
  | .setRetention seconds => { s with vars := { s.vars with retention := seconds } }
  | .setWifiOnly enabled => { s with vars := { s.vars with wifiOnly := enabled } }

/-- The deadline the worker waits for: without a client nothing falls due. -/
def due (v : Vars) : Option Instant :=
  if v.client then earliest v.nextSync v.flushDue else none

/-- The wait ended with no command. -/
def fallDue (r : Reading) (s : State) : State :=
  let work := dueWork s.vars.nextSync s.vars.flushDue r.now
  if r.allowed s.vars.wifiOnly then
    match work with
    | some .flush =>
        { s with vars := { s.vars with flushDue := none } }.begin (.command .flushOutbox)
    | _ => { s with signal := s.signal.setRunning true }.begin (.command .sync)
  else
    { s with
      vars := { s.vars with
        flushDue := none
        nextSync :=
          if work = some .sync then nextIntervalAfter s.vars.interval r.now
          else s.vars.nextSync } }

/-- The end of a command: the flag first, then the bump. -/
def finish (w : Work) (changed : Bool) (now : Instant) (s : State) : State :=
  { s with
    signal := if w.clearsSpinner then s.signal.setRunning false else s.signal
    vars :=
      if w.clearsSpinner then
        { s.vars with nextSync := nextIntervalAfter s.vars.interval now }
      else s.vars
    phase := if changed then .bumping else .waiting }

end State

/-! ## Steps -/

/-- `send` is any command but a refresh and the stop, which have steps of their
own. -/
inductive Event
  | requestSync
  | sendSync
  | lower
  | send (m : Message)
  | dropWorker
  | joined
  | started (ok : Bool)
  | receive (r : Reading)
  | fallDue (r : Reading)
  | finish (changed : Bool) (now : Instant)
  | bump

def step (e : Event) (s : State) : Option State :=
  match e with
  | .requestSync => if s.pages = .idle then some s.requestSync else none
  | .sendSync => if s.pages = .sending then some s.sendSync else none
  | .lower => if s.pages = .lowering then some s.lower else none
  | .send m =>
      if s.pages = .idle && !m.isSync && !m.isShutdown then some (s.send m) else none
  | .dropWorker => if s.pages = .idle then some s.dropWorker else none
  | .joined =>
      if s.pages = .joining && !s.phase.receives then some { s with pages := .idle } else none
  | .started ok =>
      match s.phase with
      | .starting => some (s.started ok)
      | _ => none
  | .receive r =>
      match s.phase, s.queue with
      | .waiting, m :: rest => some ({ s with queue := rest }.serve m r)
      | _, _ => none
  | .fallDue r =>
      match s.phase with
      | .waiting =>
          if (State.due s.vars).any (· ≤ r.now) then some (s.fallDue r) else none
      | _ => none
  | .finish changed now =>
      match s.phase with
      | .working w => some (s.finish w changed now)
      | _ => none
  | .bump =>
      match s.phase with
      | .bumping => some { s with signal := s.signal.bump, phase := .waiting }
      | _ => none

end Vuo.Shim.Loop
