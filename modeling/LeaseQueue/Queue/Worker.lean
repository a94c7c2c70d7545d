import LeaseQueue.Job.Live
/-!
# Workers

A worker handles one message at a time. A message to poll makes it ask its
source for a job, take the job's lock, look at what the job depends on, run it
while it renews the lock, store the outcome and release the lock. What is left
to do of a job is the phase the worker is in.
-/

namespace LeaseQueue

inductive Message where
  /-- Ask for a job and work on it. -/
  | poll
  /-- Tell a caller whether a job is being worked on. -/
  | isIdle (call : Nat)
  | shutdown
deriving Repr, DecidableEq

/-- A job that a worker works on: through which driver, under which owner. -/
structure Claim where
  id : String
  driver : Nat
  owner : String
deriving Repr, DecidableEq

inductive Phase (β : Type) where
  /-- Wait for a message. -/
  | resting
  /-- Ask the source for a job. -/
  | asking
  /-- Ask the driver of a queue that had no dispatch loop. -/
  | fetching
  /-- Wait in line for a job until a moment. -/
  | waiting (deadline : Nat)
  /-- Lock a job that was handed out. -/
  | claiming (candidate : Job β)
  /-- Read the stored copy of a locked job. -/
  | loading (claim : Claim)
  /-- Look up the jobs it waits for, `left` of them, `known` what was found. -/
  | checking (claim : Claim) (job : Job β) (left : List String)
      (known : List (String × Option Bool))
  /-- Work on the job, until a moment; the lock is to be renewed at another one. -/
  | running (claim : Claim) (job : Job β) (endsAt renewAt : Nat)
  /-- Store the job; `counts` says whether a completed one counts as this worker's work. -/
  | storing (claim : Claim) (job : Job β) (counts : Bool)
  | releasing (claim : Claim)

structure Worker (β : Type) where
  /-- The messages it has not handled, oldest first. -/
  mailbox : List Message
  /-- The moments at which it will be told to poll. -/
  alarms : List Nat
  /-- It was told to stop before its next message. -/
  stopping : Bool
  stopped : Bool
  phase : Phase β
  /-- The job it works on. -/
  currentJob : Option String
  /-- Jobs it has completed. -/
  completed : Nat

namespace Worker

variable {β : Type}

def fresh : Worker β := ⟨[.poll], [], false, false, .resting, none, 0⟩

def tell (w : Worker β) (m : Message) : Worker β :=
  if w.stopped then w else { w with mailbox := w.mailbox ++ [m] }

def stop (w : Worker β) : Worker β :=
  { w with mailbox := [], alarms := [], stopped := true, phase := .resting }

def crash (w : Worker β) : Worker β := { w.stop with currentJob := none }

def halt (w : Worker β) : Worker β := if w.stopped then w else { w with stopping := true }

def goto (w : Worker β) (p : Phase β) : Worker β := { w with phase := p }

def takeUp (w : Worker β) (j : Job β) : Worker β :=
  { w with phase := .claiming j, currentJob := some j.id }

def finishJob (w : Worker β) : Worker β :=
  { w with phase := .resting, currentJob := none, mailbox := w.mailbox ++ [.poll] }

def sleepUntil (w : Worker β) (moment : Nat) : Worker β :=
  { w with phase := .resting, alarms := w.alarms ++ [moment] }

def deadlines (w : Worker β) : List Nat :=
  w.alarms ++
    match w.phase with
    | .waiting t => [t]
    | .running _ _ endsAt renewAt => [endsAt, renewAt]
    | _ => []

end Worker

inductive Source (β : Type) where
  | queue (q : Nat)
  /-- A list of jobs, with the driver to work through if there is one. -/
  | jobs (left : List (Job β)) (driver : Option Nat)

structure Pool (β : Type) where
  size : Nat
  /-- How long a worker rests when there was no job, in nanoseconds. -/
  pollNanos : Nat
  started : Bool
  /-- The token whose cancellation stops the workers. -/
  token : Nat
  source : Option (Source β)
  workers : List (Worker β)
  /-- Something waits for the cancellation to stop the workers. -/
  watching : Bool

namespace Pool

variable {β : Type}

def idle (size pollMillis : Nat) : Pool β :=
  ⟨size, pollMillis * nanosPerMilli, false, 0, none, [], false⟩

def workerName (index : Nat) : String := "worker-" ++ toString index

def start (p : Pool β) (token : Nat) (source : Source β) : Pool β :=
  { p with
    started := true, token := token, source := some source
    workers := List.replicate p.size .fresh, watching := true }

def modify (p : Pool β) (index : Nat) (f : Worker β → Worker β) : Pool β :=
  { p with workers := p.workers.modify index f }

def deadlines (p : Pool β) : List Nat := p.workers.flatMap Worker.deadlines

end Pool

def ownerName (driver : String) (worker : Nat) : String :=
  driver ++ "/" ++ Pool.workerName worker

end LeaseQueue
