import LeaseQueue.Keyed
import LeaseQueue.Job.Live
import LeaseQueue.Tally
import LeaseQueue.Store.Saving
/-!
# Stores in memory

A store keeps an entry for each job and, apart from them, the order in which the
jobs were first saved. Jobs are handed out by that order or by priority, and not
again before a window has passed.
-/

namespace LeaseQueue

inductive Discipline where
  | oldestFirst
  /-- Highest priority first, oldest first within a priority. -/
  | byPriority
deriving Repr, DecidableEq

namespace Discipline

def word : Discipline → String
  | .oldestFirst => "internal"
  | .byPriority => "priority"

/-- The key of a job; the least one is handed out first. -/
def key (d : Discipline) (priority : Int32) (seq : Nat) : Int × Nat :=
  match d with
  | .oldestFirst => (0, seq)
  | .byPriority => (-priority.toInt, seq)

def keyBefore (a b : Int × Nat) : Bool :=
  a.1 < b.1 || (a.1 = b.1 && a.2 < b.2)

end Discipline

structure Entry where
  /-- The place of the job in the order of first saves. -/
  seq : Nat
  record : Record
  /-- When the job was last handed out. -/
  dispatchedAt : Option Nat
deriving Repr

structure Memory where
  /-- The entries by the ids of their jobs. -/
  jobs : Keyed Entry
  /-- The ids in the order of first saves, with their places. -/
  order : List (Nat × String)
  /-- The next free place. -/
  nextSeq : Nat
deriving Repr

namespace Memory

def empty : Memory := ⟨.empty, [], 0⟩

def lookup? (m : Memory) (id : String) : Option Entry := m.jobs.get? id

def record? (m : Memory) (id : String) : Option Record := (m.lookup? id).map Entry.record

/-- Inserts a record, or replaces the stored one if it may be saved over it. -/
def save (m : Memory) (r : Record) (now : Timestamp) (timeout : Nat) : Except StoreError Memory :=
  match m.lookup? r.id with
  | some e => do
      e.record.status.checkSave r.status r.id now timeout
      let merged := r.withStatus (e.record.status.merge r.status)
      return { m with jobs := m.jobs.put r.id { e with record := merged } }
  | none => .ok
      { jobs := m.jobs.put r.id ⟨m.nextSeq, r, none⟩
        order := m.order ++ [(m.nextSeq, r.id)]
        nextSeq := m.nextSeq + 1 }

/-- Whether a window has passed since a job was handed out, if it ever was. -/
def windowPassed (dispatchedAt : Option Nat) (ticks window : Nat) : Bool :=
  match dispatchedAt with
  | none => true
  | some t => window ≤ ticks - t

def isEligible (e : Entry) (now : Reading) (lease : LeaseSettings) : Bool :=
  !e.record.status.isFinished && !e.record.status.isLive now.wall lease.lockTimeout &&
    windowPassed e.dispatchedAt now.ticks lease.window

def keyOf (d : Discipline) (e : Entry) : Int × Nat := d.key e.record.base.priority e.seq

def least (d : Discipline) : List (String × Entry) → Option (String × Entry)
  | [] => none
  | p :: rest =>
      match least d rest with
      | none => some p
      | some q => if Discipline.keyBefore (keyOf d q.2) (keyOf d p.2) then some q else some p

def candidate? (m : Memory) (d : Discipline) (now : Reading) (lease : LeaseSettings) :
    Option (String × Entry) :=
  least d (m.jobs.entries.filter fun p => isEligible p.2 now lease)

def next (m : Memory) (d : Discipline) (now : Reading) (lease : LeaseSettings) :
    Option (Record × Memory) :=
  match m.candidate? d now lease with
  | none => none
  | some (id, e) =>
      some (e.record, { m with jobs := m.jobs.put id { e with dispatchedAt := some now.ticks } })

def setStatus (m : Memory) (id : String) (e : Entry) (s : Status) : Memory :=
  { m with jobs := m.jobs.put id { e with record := e.record.withStatus s } }

def lock (m : Memory) (id owner : String) (now : Timestamp) (timeout : Nat) :
    LockChange StoreError Memory :=
  match m.lookup? id with
  | none => .refused (.notFound id)
  | some e => ((e.record.status.lock id owner now timeout).mapRefusal .lock).map (m.setStatus id e)

def unlock (m : Memory) (id owner : String) (now : Timestamp) : LockChange StoreError Memory :=
  match m.lookup? id with
  | none => .refused (.notFound id)
  | some e => ((e.record.status.unlock id owner now).mapRefusal .lock).map (m.setStatus id e)

def infoFrom (m : Memory) (cursor : Nat) : List (Nat × String) → Option (StatusInfo × Nat)
  | [] => none
  | (seq, id) :: rest =>
      if seq < cursor then infoFrom m cursor rest
      else match m.lookup? id with
        | some e => some (.ofRecord e.record, seq + 1)
        | none => infoFrom m cursor rest

def pull (m : Memory) (cursor : Nat) : Option (StatusInfo × Nat) :=
  m.infoFrom cursor m.order

def infos (m : Memory) : List StatusInfo :=
  m.order.filterMap fun (_, id) => (m.lookup? id).map fun e => .ofRecord e.record

def tally (m : Memory) : Tally := .ofInfos m.infos

end Memory
end LeaseQueue
