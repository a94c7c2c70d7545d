import LeaseQueue.Time.Written
/-!
# Status and lease

A job's status says whether it is finished and who holds it. A lock is a lease:
it is live while less than the timeout has passed since it was taken or renewed.
Every lock and every release of one raises the modification count, by which a
stale copy is told from a fresh one. A change of a lock whose count is at its end
breaks off where the count would be raised: the owner has changed by then, the
count and its time have not.
-/

namespace LeaseQueue

structure Status where
  /-- The job's work is done. -/
  completed : Bool
  /-- The last attempt recorded an error. -/
  failed : Bool
  /-- An owner holds the job. -/
  inProgress : Bool
  /-- The owner, empty if there is none. -/
  owner : String
  /-- How often a lock was taken, renewed or released. -/
  modCount : UInt64
  /-- When that last happened. -/
  modTime : Option Timestamp
deriving Repr, DecidableEq

inductive LockConflict where
  | held (id holder : String)
  | completed (id : String)
  | failed (id : String)
deriving Repr, DecidableEq

inductive LockChange (ε σ : Type) where
  | made (after : σ)
  | refused (e : ε)
  /-- It broke off half-way; what it had changed by then stays. -/
  | broken (after : σ)
deriving Repr, DecidableEq

namespace LockChange

variable {ε ε' σ σ' : Type}

def map (f : σ → σ') : LockChange ε σ → LockChange ε σ'
  | .made s => .made (f s)
  | .refused e => .refused e
  | .broken s => .broken (f s)

def mapRefusal (f : ε → ε') : LockChange ε σ → LockChange ε' σ
  | .made s => .made s
  | .refused e => .refused (f e)
  | .broken s => .broken s

def ofExcept : Except ε σ → LockChange ε σ
  | .ok s => .made s
  | .error e => .refused e

end LockChange

namespace LockConflict

def message : LockConflict → String
  | .held id holder => "job " ++ id ++ " is locked by " ++ holder
  | .completed id => "job " ++ id ++ " is already completed"
  | .failed id => "job " ++ id ++ " has failed"

end LockConflict

def defaultLockSeconds : Nat := 300

def defaultLockTimeout : Nat := defaultLockSeconds * nanosPerSecond

namespace Status

def blank : Status := ⟨false, false, false, "", 0, none⟩

def isFinished (s : Status) : Bool := s.completed || s.failed

/-- Whether an owner holds a lease of `timeout` nanoseconds that has not run out. Without a time of
the lock there is no lease to honour. -/
def isLive (s : Status) (now : Timestamp) (timeout : Nat) : Bool :=
  s.inProgress && s.owner != "" &&
    match s.modTime with
    | some t => now.since t < timeout
    | none => false

def isHeldBy (s : Status) (owner : String) : Bool :=
  s.inProgress && owner != "" && s.owner == owner

def canLock (s : Status) (owner : String) (now : Timestamp) (timeout : Nat) : Bool :=
  !s.isFinished && (s.owner == owner || !s.isLive now timeout)

/-- Notes a change of the lock in the count and its time, unless the count is at its end. -/
def counted (s : Status) (now : Timestamp) : LockChange LockConflict Status :=
  if s.modCount.toNat = maxUInt64 then .broken s
  else .made { s with modCount := s.modCount + 1, modTime := some now }

def lock (s : Status) (id owner : String) (now : Timestamp) (timeout : Nat) :
    LockChange LockConflict Status :=
  if s.completed then .refused (.completed id)
  else if s.failed then .refused (.failed id)
  else if !s.canLock owner now timeout then .refused (.held id s.owner)
  else { s with inProgress := true, owner := owner : Status }.counted now

/-- Releases the lock of job `id`. A job that is not locked stays as it is. -/
def unlock (s : Status) (id owner : String) (now : Timestamp) :
    LockChange LockConflict Status :=
  if !s.inProgress then .made s
  else if s.owner != owner then .refused (.held id s.owner)
  else { s with inProgress := false, owner := "" : Status }.counted now

def toJson (s : Status) : Json :=
  .ofMembers [("completed", .bool s.completed), ("failed", .bool s.failed),
    ("in_progress", .bool s.inProgress), ("owner", .string s.owner),
    ("mod_count", .count s.modCount.toNat), ("mod_time", Json.option Timestamp.toJson s.modTime)]

def fields : List (Document.Field Status) := [
  .optional "completed" Document.toBool fun v s => { s with completed := v },
  .optional "failed" Document.toBool fun v s => { s with failed := v },
  .optional "in_progress" Document.toBool fun v s => { s with inProgress := v },
  .optional "owner" Document.toText fun v s => { s with owner := v },
  .optional "mod_count" Document.toUInt64 fun v s => { s with modCount := v },
  .optional "mod_time" (Document.toOption Timestamp.ofDocument) fun v s => { s with modTime := v }]

def ofDocument : Nat → Document → Except Failure Status :=
  Document.toRecord fields blank

end Status
end LeaseQueue
