import LeaseQueue.Queue.Call
import LeaseQueue.Queue.Driver
import LeaseQueue.Queue.Error
import LeaseQueue.Queue.Line
import LeaseQueue.Queue.Worker
/-!
# Systems of queues

All that queues, pools and clients share: one clock, the files that exist, the
tokens that were cancelled, the backends and the drivers that work on them, and the
log of the attempts at jobs.
-/

namespace LeaseQueue

structure Run (β : Type) where
  owner : String
  job : Job β
  moment : Nat

structure System (β : Type) where
  /-- Nanoseconds since the epoch. -/
  clock : Nat
  /-- Whether there is a file at a path. -/
  files : String → Bool
  /-- The tokens that are cancelled. -/
  cancelled : List Nat
  backends : List (Backend β)
  drivers : List Driver
  pools : List (Pool β)
  queues : List (Queue β)
  calls : List (Call β)
  /-- The attempts begun, oldest first. -/
  runs : List (Run β)

namespace System

variable {β : Type}

def empty (clock : Nat) : System β := ⟨clock, fun _ => false, [], [], [], [], [], [], []⟩

def reading (s : System β) : Reading := .ofNanos s.clock

def now (s : System β) : Timestamp := s.reading.wall

def isCancelled (s : System β) (token : Nat) : Bool := s.cancelled.contains token

def modifyQueue (s : System β) (q : Nat) (f : Queue β → Queue β) : System β :=
  { s with queues := s.queues.modify q f }

def modifyPool (s : System β) (p : Nat) (f : Pool β → Pool β) : System β :=
  { s with pools := s.pools.modify p f }

def modifyWorker (s : System β) (p i : Nat) (f : Worker β → Worker β) : System β :=
  s.modifyPool p fun pool => pool.modify i f

def setCall (s : System β) (c : Nat) (call : Call β) : System β :=
  { s with calls := s.calls.set c call }

/-! ## Calls of drivers -/

/-- A call of a driver. `failed` is its answer if it was planned to fail; the backend then stays as
it is. -/
def viaDriver {α : Type} (s : System β) (d : Nat) (call : DriverCall) (failed : α)
    (f : Backend β → α × Backend β) : α × System β :=
  match s.drivers[d]? with
  | none => (failed, s)
  | some driver =>
      let (fails, driver) := driver.begin call
      let s := { s with drivers := s.drivers.set d driver }
      if fails then (failed, s)
      else match s.backends[driver.backend]? with
        | none => (failed, s)
        | some b =>
            let (a, b) := f b
            (a, { s with backends := s.backends.set driver.backend b })

def settle (b : Backend β) (r : Except StoreError (Backend β)) :
    Except StoreError Unit × Backend β :=
  match r with
  | .ok b => (.ok (), b)
  | .error e => (.error e, b)

def settleLock (b : Backend β) (r : LockChange StoreError (Backend β)) :
    LockChange StoreError Unit × Backend β :=
  match r with
  | .made b => (.made (), b)
  | .refused e => (.refused e, b)
  | .broken b => (.broken (), b)

def backendOf? (s : System β) (d : Nat) : Option (Backend β) := do
  s.backends[(← s.drivers[d]?).backend]?

def driverName (s : System β) (d : Nat) : String :=
  match s.drivers[d]? with
  | some driver => driver.name
  | none => ""

/-- How long a lock through a driver lasts, in nanoseconds. -/
def lockTimeout (s : System β) (d : Nat) : Nat :=
  match s.backendOf? d with
  | some b => b.lease.lockTimeout
  | none => defaultLockTimeout

def driverOpen (s : System β) (d token : Nat) : Except StoreError Unit × System β :=
  s.viaDriver d .openStore (.error .connection) fun b =>
    settle b (b.openStore (s.isCancelled token))

def driverClose (s : System β) (d : Nat) : System β :=
  match s.drivers[d]? with
  | none => s
  | some driver => { s with backends := s.backends.modify driver.backend Backend.close }

def driverSave [Body β] (s : System β) (d token : Nat) (j : Job β) :
    Except StoreError Unit × System β :=
  s.viaDriver d .save (.error .connection) fun b =>
    settle b (b.save (s.isCancelled token) s.reading j)

def driverGet (s : System β) (d token : Nat) (id : String) : Option (Job β) × System β :=
  s.viaDriver d .get none fun b => (b.get (s.isCancelled token) id, b)

def driverNext (s : System β) (d token : Nat) : Option (Job β) × System β :=
  s.viaDriver d .next none fun b => b.next (s.isCancelled token) s.reading

def driverLock (s : System β) (d token : Nat) (id owner : String) :
    LockChange StoreError Unit × System β :=
  s.viaDriver d .lock (.refused .connection) fun b =>
    settleLock b (b.lock (s.isCancelled token) s.reading id owner)

def driverUnlock (s : System β) (d token : Nat) (id owner : String) :
    LockChange StoreError Unit × System β :=
  s.viaDriver d .unlock (.refused .connection) fun b =>
    settleLock b (b.unlock (s.isCancelled token) s.reading id owner)

def driverTally (s : System β) (d token : Nat) : Tally :=
  match s.backendOf? d with
  | some b => b.tally (s.isCancelled token)
  | none => .zero

def driverInfos (s : System β) (d token : Nat) : List StatusInfo :=
  match s.backendOf? d with
  | some b => b.infos (s.isCancelled token)
  | none => []

/-! ## Parts of queues -/

def queueDriver (s : System β) (q : Nat) : Option Nat := do
  (← s.queues[q]?).driver

def queueBackend (s : System β) (q : Nat) : Option Nat := do
  return (← s.drivers[← s.queueDriver q]?).backend

def sourceDriver (s : System β) : Option (Source β) → Option Nat
  | some (.queue q) => s.queueDriver q
  | some (.jobs _ d) => d
  | none => none

def launchLoop (s : System β) (q d token : Nat) : System β :=
  s.modifyQueue q fun queue => queue.launchLoop d token

def runnerSize (s : System β) : Runner → Nat
  | .pool p =>
      match s.pools[p]? with
      | some pool => pool.size
      | none => 0
  | .broken => 1

def runnerStarted (s : System β) : Runner → Bool
  | .pool p =>
      match s.pools[p]? with
      | some pool => pool.started
      | none => false
  | .broken => false

def tell (s : System β) (p i : Nat) (m : Message) : System β :=
  s.modifyWorker p i fun w => w.tell m

def deadlines (s : System β) : List Nat :=
  s.pools.flatMap Pool.deadlines ++ s.queues.flatMap Queue.deadlines ++
    s.calls.flatMap Call.deadlines

def nextDeadline (s : System β) : Option Nat :=
  ((s.deadlines.filter fun t => s.clock < t).min?)

end System
end LeaseQueue
