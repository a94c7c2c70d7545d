import LeaseQueue.Job.Live
import LeaseQueue.Settings
/-!
# Queues

A queue has a driver, a runner, and a dispatch loop that takes jobs from the
driver and puts them into a buffer. Those who want a job stand in line for it;
the first of them gets the first job.
-/

namespace LeaseQueue

inductive Waiter where
  | worker (pool index : Nat)
  | call (index : Nat)
deriving Repr, DecidableEq

inductive Runner where
  | pool (p : Nat)
  /-- A runner that cannot be started. -/
  | broken
deriving Repr, DecidableEq

inductive LoopPhase (β : Type) where
  | asking
  /-- Put a job into the buffer as soon as there is room. -/
  | offering (job : Job β)
  | resting (deadline : Nat)

structure Loop (β : Type) where
  driver : Nat
  /-- The token whose cancellation ends the loop. -/
  token : Nat
  phase : LoopPhase β

structure Queue (β : Type) where
  settings : QueueSettings
  driver : Option Nat
  runner : Option Runner
  started : Bool
  /-- A dispatch loop was launched and has not ended. -/
  dispatching : Bool
  /-- The dispatch loops that are alive. -/
  loops : List (Loop β)
  /-- Jobs that wait to be taken, oldest first. -/
  buffer : List (Job β)
  /-- Those who wait for a job, in the order in which they came. -/
  waiters : List Waiter

namespace Queue

variable {β : Type}

def idle (settings : QueueSettings) (pool : Nat) : Queue β :=
  ⟨settings, none, some (.pool pool), false, false, [], [], []⟩

/-- How long the loop rests, and how long one waits for a job, in nanoseconds. -/
def pollNanos (q : Queue β) : Nat := q.settings.effectivePollMillis * nanosPerMilli

def hasRoom (q : Queue β) : Bool := q.buffer.length < q.settings.effectiveBuffer

/-- Whether a waiter may take a job: the first in line, when there is one. -/
def mayTake (q : Queue β) (w : Waiter) : Bool :=
  q.waiters.head? = some w && !q.buffer.isEmpty

def enterLine (q : Queue β) (w : Waiter) : Queue β := { q with waiters := q.waiters ++ [w] }

def leaveLine (q : Queue β) (w : Waiter) : Queue β :=
  { q with waiters := q.waiters.filter (· ≠ w) }

/-- Launches a dispatch loop unless one was launched that has not ended. -/
def launchLoop (q : Queue β) (driver token : Nat) : Queue β :=
  if q.dispatching then q
  else { q with dispatching := true, loops := q.loops ++ [⟨driver, token, .asking⟩] }

def setLoop (q : Queue β) (index : Nat) (p : LoopPhase β) : Queue β :=
  { q with loops := q.loops.modify index fun l => { l with phase := p } }

def endLoop (q : Queue β) (index : Nat) : Queue β :=
  { q with dispatching := false, loops := q.loops.eraseIdx index }

def deadlines (q : Queue β) : List Nat :=
  q.loops.filterMap fun l => match l.phase with
    | .resting t => some t
    | _ => none

end Queue
end LeaseQueue
