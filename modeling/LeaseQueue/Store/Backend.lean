import LeaseQueue.Job.Registry
import LeaseQueue.Store.Memory
import LeaseQueue.Store.Exchange
/-!
# Stores behind drivers

A driver works on a backend: a store in memory or in a table, together with the
registry that turns its records into jobs and the settings of its leases. All
drivers of one backend see the same jobs. An operation that was called off does
nothing, except on stores in memory, where only lists and hand-outs heed it.
-/

namespace LeaseQueue

inductive Storage where
  | memory (discipline : Discipline) (store : Memory)
  /-- A table; without a connection there is none. `lastSeq` is the last place given to a row. -/
  | table (settings : TableSettings) (connection : Option Table) (lastSeq : Int)

structure Backend (β : Type) where
  registry : Registry β
  lease : LeaseSettings
  storage : Storage

inductive Listing where
  | memory (cursor : Nat)
  | table (cursor : PageCursor)
  | ended
deriving Repr, DecidableEq

namespace Backend

variable {β : Type}

def inMemory (registry : Registry β) (discipline : Discipline) (lease : LeaseSettings) :
    Backend β :=
  ⟨registry, lease, .memory discipline .empty⟩

def overTable (registry : Registry β) (settings : TableSettings) (lease : LeaseSettings) :
    Backend β :=
  ⟨registry, lease, .table settings none 0⟩

def word (b : Backend β) : String :=
  match b.storage with
  | .memory d _ => d.word
  | .table .. => "surreal"

def isLocal (endpoint : String) : Bool := endpoint = "mem://" || endpoint = "memory"

def openStore (b : Backend β) (cancelled : Bool) : Except StoreError (Backend β) :=
  match b.storage with
  | .memory .. => .ok b
  | .table _ (some _) _ => .ok b
  | .table s none lastSeq => do
      s.validate
      if cancelled then throw .cancelled
      if !isLocal s.endpoint then throw .connection
      if s.credentials.isSome then throw .database
      return { b with storage := .table s (some .empty) lastSeq }

/-- Closes the store. A table in this process is lost with its connection. -/
def close (b : Backend β) : Backend β :=
  match b.storage with
  | .memory .. => b
  | .table s _ lastSeq => { b with storage := .table s none lastSeq }

def save [Body β] (b : Backend β) (cancelled : Bool) (now : Reading) (j : Job β) :
    Except StoreError (Backend β) := do
  let record ← j.toRecord.mapError .unwritable
  match b.storage with
  | .memory d m => do
      let m ← m.save record now.wall b.lease.lockTimeout
      return { b with storage := .memory d m }
  | .table _ none _ => throw .notOpen
  | .table s (some t) lastSeq => do
      if cancelled then throw .cancelled
      let (t, lastSeq) ← t.save lastSeq record now.wall b.lease
      return { b with storage := .table s (some t) lastSeq }

def record? (b : Backend β) (cancelled : Bool) (id : String) : Option Record :=
  match b.storage with
  | .memory _ m => m.record? id
  | .table _ none _ => none
  | .table _ (some t) _ => if cancelled then none else (t.select id).map Row.record

def get (b : Backend β) (cancelled : Bool) (id : String) : Option (Job β) := do
  b.registry.build? (← b.record? cancelled id)

/-- Hands a job out. A record that cannot be turned into a job is passed over in silence. -/
def next (b : Backend β) (cancelled : Bool) (now : Reading) : Option (Job β) × Backend β :=
  if cancelled then (none, b)
  else match b.storage with
    | .memory d m =>
        match m.next d now b.lease with
        | some (r, m) => (b.registry.build? r, { b with storage := .memory d m })
        | none => (none, b)
    | .table _ none _ => (none, b)
    | .table s (some t) lastSeq =>
        match t.next lastSeq b.lease now.wall with
        | some (r, t, lastSeq) => (b.registry.build? r, { b with storage := .table s (some t) lastSeq })
        | none => (none, b)

def lock (b : Backend β) (cancelled : Bool) (now : Reading) (id owner : String) :
    LockChange StoreError (Backend β) :=
  match b.storage with
  | .memory d m =>
      (m.lock id owner now.wall b.lease.lockTimeout).map fun m => { b with storage := .memory d m }
  | .table _ none _ => .refused .notOpen
  | .table s (some t) lastSeq => .ofExcept do
      if cancelled then throw .cancelled
      let (t, lastSeq) ← t.lock lastSeq b.lease id owner now.wall
      return { b with storage := .table s (some t) lastSeq }

def unlock (b : Backend β) (cancelled : Bool) (now : Reading) (id owner : String) :
    LockChange StoreError (Backend β) :=
  match b.storage with
  | .memory d m => (m.unlock id owner now.wall).map fun m => { b with storage := .memory d m }
  | .table _ none _ => .refused .notOpen
  | .table s (some t) lastSeq => .ofExcept do
      if cancelled then throw .cancelled
      let (t, lastSeq) ← t.unlock lastSeq b.lease id owner now.wall
      return { b with storage := .table s (some t) lastSeq }

def listing (b : Backend β) : Listing :=
  match b.storage with
  | .memory .. => .memory 0
  | .table .. => .table .first

/-- Goes on with a list of jobs. A list that has ended gives nothing more. -/
def pull (b : Backend β) (cancelled : Bool) (l : Listing) : Option StatusInfo × Listing :=
  if cancelled then (none, .ended)
  else match l, b.storage with
    | .memory cursor, .memory _ m =>
        match m.pull cursor with
        | some (i, cursor) => (some i, .memory cursor)
        | none => (none, .ended)
    | .table cursor, .table _ (some t) _ =>
        match cursor.pull t with
        | some (i, cursor) => (some i, .table cursor)
        | none => (none, .ended)
    | .table ⟨start, i :: rest, exhausted⟩, .table _ none _ =>
        (some i, .table ⟨start, rest, exhausted⟩)
    | _, _ => (none, .ended)

/-- What a list still gives, at most `fuel` jobs, if nothing changes in the meantime. -/
def pullAll (b : Backend β) : Nat → Listing → List StatusInfo
  | 0, _ => []
  | fuel + 1, l =>
      match b.pull false l with
      | (some i, l) => i :: b.pullAll fuel l
      | (none, _) => []

def size (b : Backend β) : Nat :=
  match b.storage with
  | .memory _ m => m.order.length
  | .table _ (some t) _ => t.rows.length
  | .table _ none _ => 0

def infos (b : Backend β) (cancelled : Bool) : List StatusInfo :=
  if cancelled then [] else b.pullAll b.size b.listing

def tally (b : Backend β) (cancelled : Bool) : Tally :=
  if cancelled then .zero
  else match b.storage with
    | .memory _ m => .ofInfos (b.pullAll m.order.length b.listing)
    | .table _ none _ => .zero
    | .table _ (some t) _ => t.tally

end Backend
end LeaseQueue
