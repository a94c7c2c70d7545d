import LeaseQueue.Tally
import LeaseQueue.Store.Saving
/-!
# Stores in a table

A table has a row for each job. Every change is one conditional statement on a
row, so that any number of drivers may share the table. Leases and hand-outs are
kept beside the record in whole milliseconds; a job that was never handed out
counts as handed out at the epoch. Columns hold signed numbers of 64 bits: a count
at that end cannot be raised.
-/

namespace LeaseQueue

def minColumn : Int := -9223372036854775808

def maxColumn : Int := 9223372036854775807

def columnSub (a b : Int) : Int := max minColumn (min maxColumn (a - b))

structure Row where
  id : String
  /-- Grows with every row that is made. -/
  seq : Int
  /-- When the lock last changed. -/
  leaseMillis : Int
  /-- When the job was last handed out. -/
  dispatchedMillis : Int
  record : Record
deriving Repr

namespace Row

/-- The time of the last change of a lock in milliseconds; zero if there was none. -/
def leaseOf (s : Status) : Int :=
  match s.modTime with
  | some t => t.millis
  | none => 0

def status (r : Row) : Status := r.record.status

def handedBefore (a b : Row) : Bool :=
  let p := a.record.base.priority.toInt
  let q := b.record.base.priority.toInt
  q < p || (p = q && a.seq ≤ b.seq)

def listedBefore (a b : Row) : Bool :=
  a.seq < b.seq || (a.seq = b.seq && !(b.id < a.id))

end Row

mutual
/-- A value as the table keeps it: members of objects that are null are left out. -/
def dropNulls : Json → Json
  | .array items => .array (dropNullsItems items)
  | .object members => .object (dropNullsMembers members)
  | v => v

def dropNullsItems : List Json → List Json
  | [] => []
  | v :: rest => dropNulls v :: dropNullsItems rest

def dropNullsMembers : List (String × Json) → List (String × Json)
  | [] => []
  | (_, .null) :: rest => dropNullsMembers rest
  | (k, v) :: rest => (k, dropNulls v) :: dropNullsMembers rest
end

def Record.stored (r : Record) : Record := { r with payload := dropNulls r.payload }

structure Table where
  rows : List Row
deriving Repr

namespace Table

def empty : Table := ⟨[]⟩

/-! ## Statements -/

def select (t : Table) (id : String) : Option Row := t.rows.find? fun r => r.id = id

def create (t : Table) (r : Row) : Option Table :=
  match t.select r.id with
  | some _ => none
  | none => some ⟨t.rows ++ [r]⟩

/-- Changes the row of a job if a condition holds for it; none if there is no such row. -/
def updateWhere (t : Table) (id : String) (condition : Row → Bool) (change : Row → Row) :
    Option Table :=
  match t.select id with
  | some r =>
      if condition r then some ⟨t.rows.map fun r => if r.id = id then change r else r⟩ else none
  | none => none

/-- Replaces the record of a job if its status is still the one that was seen. -/
def replace (t : Table) (id : String) (record : Record) (seen : Status) : Option Table :=
  t.updateWhere id
    (fun r => r.status.modCount = seen.modCount && r.status.owner = seen.owner &&
      r.status.inProgress = seen.inProgress)
    (fun r => { r with record := record.stored, leaseMillis := Row.leaseOf record.status })

/-- Whether a row may be handed out: not finished, not locked after `liveAfter`, not handed out after
`dispatchAfter`. -/
def mayHandOut (liveAfter dispatchAfter : Int) (r : Row) : Bool :=
  !r.status.completed && !r.status.failed &&
    (!r.status.inProgress || r.leaseMillis ≤ liveAfter) && r.dispatchedMillis ≤ dispatchAfter

def candidate (t : Table) (liveAfter dispatchAfter : Int) : Option Row :=
  ((t.rows.filter (mayHandOut liveAfter dispatchAfter)).mergeSort Row.handedBefore).head?

/-- Notes that a job is handed out, if nobody else has done so. -/
def claim (t : Table) (id : String) (seen nowMillis : Int) : Option Table :=
  t.updateWhere id (fun r => r.dispatchedMillis = seen)
    (fun r => { r with dispatchedMillis := nowMillis })

def changeLock (s : Status) (inProgress : Bool) (owner : String) (now : Timestamp) : Status :=
  { s with
    inProgress := inProgress, owner := owner, modCount := s.modCount + 1, modTime := some now }

def lockRow (inProgress : Bool) (owner : String) (now : Timestamp) (r : Row) : Row :=
  { r with
    record := r.record.withStatus (changeLock r.status inProgress owner now)
    leaseMillis := now.millis }

/-- Changes the lock of a job if a condition holds for its row. The statement fails if the column of
the count holds no greater number. -/
def turnWhere (t : Table) (id : String) (condition : Row → Bool) (change : Row → Row) :
    Except StoreError (Option Table) :=
  match t.select id with
  | some r =>
      if condition r && maxColumn ≤ r.status.modCount.toNat then .error .database
      else .ok (t.updateWhere id condition change)
  | none => .ok none

/-- Takes or renews the lock of a job if it is free, held by the owner, or not locked after
`liveAfter`. -/
def lockWhere (t : Table) (id owner : String) (now : Timestamp) (liveAfter : Int) :
    Except StoreError (Option Table) :=
  t.turnWhere id
    (fun r => !r.status.completed && !r.status.failed &&
      (!r.status.inProgress || r.status.owner = owner || r.leaseMillis ≤ liveAfter))
    (lockRow true owner now)

def unlockWhere (t : Table) (id owner : String) (now : Timestamp) :
    Except StoreError (Option Table) :=
  t.turnWhere id (fun r => r.status.inProgress && r.status.owner = owner) (lockRow false "" now)

def page (t : Table) (limit start : Nat) : List StatusInfo :=
  (((t.rows.mergeSort Row.listedBefore).drop start).take limit).map fun r => .ofRecord r.record

def tally (t : Table) : Tally :=
  let total := t.rows.length
  let completed := t.rows.countP fun r => r.status.completed
  let failed := t.rows.countP fun r => !r.status.completed && r.status.failed
  let running := t.rows.countP fun r =>
    !r.status.completed && !r.status.failed && r.status.inProgress
  ⟨total, total - (completed + failed + running), running, completed, failed⟩

/-! ## Bounds and places -/

def lockMillis (lease : LeaseSettings) : Int := min (lease.lockSeconds * 1000 : Nat) maxColumn

def windowMillis (lease : LeaseSettings) : Int := min (lease.windowMillis : Nat) maxColumn

/-- The time until which a lock has to have been changed to have run out. -/
def liveAfter (lease : LeaseSettings) (now : Timestamp) : Int :=
  columnSub now.millis (lockMillis lease)

/-- The time until which a job has to have been handed out to be handed out again. -/
def dispatchAfter (lease : LeaseSettings) (now : Timestamp) : Int :=
  columnSub now.millis (windowMillis lease)

/-- The place of a new row: the time, but always beyond the last place given. -/
def nextSeq (lastSeq : Int) (now : Timestamp) : Int := max now.micros (lastSeq + 1)

/-- Why a change of a lock did not match; releasing a job that is not locked is no error. -/
def explain (t : Table) (releasing : Bool) (id : String) : Except StoreError Unit :=
  match t.select id with
  | none => .error (.notFound id)
  | some r =>
      if releasing && !r.status.inProgress then .ok ()
      else if r.status.completed then .error (.lock (.completed id))
      else if r.status.failed then .error (.lock (.failed id))
      else .error (.lock (.held id r.status.owner))

def pageSize : Nat := 100

end Table

/-- Where a list of the jobs of a table stands: what is left of the page read last, how many jobs
were read, and whether that page was the last one. -/
structure PageCursor where
  start : Nat
  buffer : List StatusInfo
  exhausted : Bool
deriving Repr, DecidableEq

namespace PageCursor

def first : PageCursor := ⟨0, [], false⟩

/-- Goes on with a list; the next page is read when the one before is used up. -/
def pull (c : PageCursor) (t : Table) : Option (StatusInfo × PageCursor) :=
  match c.buffer with
  | i :: rest => some (i, { c with buffer := rest })
  | [] =>
      if c.exhausted then none
      else
        let infos := t.page Table.pageSize c.start
        match infos with
        | [] => none
        | i :: rest =>
            some (i, ⟨c.start + infos.length, rest, infos.length < Table.pageSize⟩)

end PageCursor
end LeaseQueue
