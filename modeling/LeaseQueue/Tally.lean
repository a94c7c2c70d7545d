import LeaseQueue.Job.Record
/-!
# Counts of jobs

How many jobs there are and how many of them wait, run, are done or have given
up. A completed job counts as completed whatever else its status says.
-/

namespace LeaseQueue

structure Tally where
  total : Nat
  /-- Neither finished nor locked. -/
  pending : Nat
  /-- Locked and not finished. -/
  running : Nat
  completed : Nat
  /-- Given up after an error. -/
  failed : Nat
deriving Repr, DecidableEq

namespace Tally

def zero : Tally := ⟨0, 0, 0, 0, 0⟩

def record (t : Tally) (i : StatusInfo) : Tally :=
  let t := { t with total := t.total + 1 }
  if i.completed then { t with completed := t.completed + 1 }
  else if i.failed then { t with failed := t.failed + 1 }
  else if i.inProgress then { t with running := t.running + 1 }
  else { t with pending := t.pending + 1 }

def ofInfos (infos : List StatusInfo) : Tally := infos.foldl record zero

def active (t : Tally) : Nat := t.pending + t.running

def isComplete (t : Tally) : Bool := t.total == t.completed + t.failed

def toJson (t : Tally) : Json :=
  .ofMembers [("total", .count t.total), ("pending", .count t.pending),
    ("running", .count t.running), ("completed", .count t.completed),
    ("failed", .count t.failed)]

def fields : List (Document.Field Tally) := [
  .optional "total" Document.toCount fun v t => { t with total := v },
  .optional "pending" Document.toCount fun v t => { t with pending := v },
  .optional "running" Document.toCount fun v t => { t with running := v },
  .optional "completed" Document.toCount fun v t => { t with completed := v },
  .optional "failed" Document.toCount fun v t => { t with failed := v }]

def ofDocument : Nat → Document → Except Failure Tally :=
  Document.toRecord fields zero

end Tally
end LeaseQueue
