import LeaseQueue.Job.Record
/-!
# Live jobs

A live job is a base with a body: the part that only the job's own type knows. A
body can be written as a payload, and attempted. An attempt may change the body
and record errors; it lasts for some time.

It is assumed that an attempt depends on the body alone: it ends in the same way
whenever and wherever it is made. This leaves out attempts that panic, that end
early because their token is cancelled, and that edit the base of their job
otherwise than by recording errors.
-/

namespace LeaseQueue

structure Attempt (β : Type) where
  body : β
  /-- The errors it recorded, in order. -/
  errors : List String
  /-- How many nanoseconds it takes. -/
  lasts : Nat

class Body (β : Type) where
  /-- The payload of a body, or why it cannot be written. -/
  payload : β → Except String Json
  /-- Does the work of a body. -/
  attempt : β → Attempt β

structure Job (β : Type) where
  base : Base
  body : β
deriving Repr

namespace Job

variable {β : Type}

def id (j : Job β) : String := j.base.id

def status (j : Job β) : Status := j.base.status

def withStatus (j : Job β) (s : Status) : Job β :=
  { j with base := { j.base with status := s } }

def markDispatched (j : Job β) (now : Timestamp) : Job β :=
  { j with base := { j.base with times := j.base.times.markDispatched now } }

/-- The job as an attempt at it begins: dispatched, without the errors of earlier attempts. -/
def begun (j : Job β) (now : Timestamp) : Job β :=
  let j := j.markDispatched now
  { j with base := { j.base with error := none } }

/-- The job as an attempt at it ends: failed if an error was recorded, else completed. -/
def ended (j : Job β) (now : Timestamp) : Job β :=
  let status : Status :=
    match j.base.error with
    | none => { j.status with completed := true }
    | some _ => { j.status with failed := true }
  { j with base := { j.base with times := { j.base.times with finish := some now }, status := status } }

def passed (j : Job β) : Job β := j.withStatus { j.status with completed := true }

def addError (j : Job β) (error : String) : Job β :=
  { j with base := j.base.addError error }

def lock (j : Job β) (owner : String) (now : Timestamp) : LockChange LockConflict (Job β) :=
  (j.status.lock j.id owner now defaultLockTimeout).map j.withStatus

def unlock (j : Job β) (owner : String) (now : Timestamp) : LockChange LockConflict (Job β) :=
  (j.status.unlock j.id owner now).map j.withStatus

variable [Body β]

def toRecord (j : Job β) : Except String Record := do
  return ⟨j.base, ← Body.payload j.body⟩

def attempted (j : Job β) : Job β :=
  let a := Body.attempt j.body
  a.errors.foldl addError { j with body := a.body }

end Job
end LeaseQueue
