import LeaseQueue.Store.Table
/-!
# Calls on a table

A call sends its statements one after the other, and other drivers may send theirs
in between. What it does next depends on what it has read. So a save is refused at
its last statement if the row has changed since it was read, and goes over to
replacing the row if somebody else has made it; and a job is handed out only if
nobody has handed it out since it was chosen.
-/

namespace LeaseQueue

namespace Table

inductive Reply where
  | done (r : Except StoreError Unit)
  | handed (r : Option Record)

/-- A call between two of its steps: the statement that it sends next, or what it settles by itself,
with what it has kept of the answers before. -/
inductive Exchange where
  /-- A save looks for the row; `lost` if somebody else has made it before the save could. -/
  | select (record : Record) (lost : Bool)
  | weigh (record : Record) (stored : Option Row) (lost : Bool)
  | create (record : Record) (seq : Int)
  | replace (record : Record) (seen : Status)
  | choose (now : Timestamp)
  | claim (chosen : Row) (now : Timestamp)
  | turn (releasing : Bool) (id owner : String) (now : Timestamp)
  | explain (releasing : Bool) (id : String)
  | ended (reply : Reply)

namespace Exchange

def rank : Exchange → Nat
  | .select _ false => 6
  | .weigh _ _ false => 5
  | .create .. => 4
  | .select _ true => 3
  | .weigh _ _ true => 2
  | .replace .. => 1
  | .choose _ => 2
  | .claim .. => 1
  | .turn .. => 2
  | .explain .. => 1
  | .ended _ => 0

/-- A save settles what to do about the row that it has read: it makes one in the next place, or
merges its record into the one that is there. -/
def settle (lease : LeaseSettings) (now : Timestamp) (record : Record) (stored : Option Row)
    (lost : Bool) (lastSeq : Int) : Exchange × Int :=
  match stored, lost with
  | some row, _ =>
      match row.status.checkSave record.status record.id now lease.lockTimeout with
      | .ok _ =>
          (.replace (record.withStatus (row.status.merge record.status)) row.status, lastSeq)
      | .error e => (.ended (.done (.error e)), lastSeq)
  | none, false => (.create record (nextSeq lastSeq now), nextSeq lastSeq now)
  | none, true => (.ended (.done (.error .database)), lastSeq)

/-- One step of a call on a table with the last place given, at a reading of the clock. -/
def step (lease : LeaseSettings) (now : Timestamp) :
    Exchange → Table × Int → Exchange × Table × Int
  | .select record lost, (t, lastSeq) => (.weigh record (t.select record.id) lost, t, lastSeq)
  | .weigh record stored lost, (t, lastSeq) =>
      let (x, lastSeq) := settle lease now record stored lost lastSeq
      (x, t, lastSeq)
  | .create record seq, (t, lastSeq) =>
      match t.create ⟨record.id, seq, Row.leaseOf record.status, 0, record.stored⟩ with
      | some t => (.ended (.done (.ok ())), t, lastSeq)
      | none => (.select record true, t, lastSeq)
  | .replace record seen, (t, lastSeq) =>
      match t.replace record.id record seen with
      | some t => (.ended (.done (.ok ())), t, lastSeq)
      | none => (.ended (.done (.error (.conflict record.id .concurrent))), t, lastSeq)
  | .choose now, (t, lastSeq) =>
      match t.candidate (liveAfter lease now) (dispatchAfter lease now) with
      | some row => (.claim row now, t, lastSeq)
      | none => (.ended (.handed none), t, lastSeq)
  | .claim chosen now, (t, lastSeq) =>
      match t.claim chosen.id chosen.dispatchedMillis now.millis with
      | some t => (.ended (.handed ((t.select chosen.id).map Row.record)), t, lastSeq)
      | none => (.ended (.handed none), t, lastSeq)
  | .turn releasing id owner now, (t, lastSeq) =>
      let turned := if releasing then t.unlockWhere id owner now
        else t.lockWhere id owner now (liveAfter lease now)
      match turned with
      | .ok (some t) => (.ended (.done (.ok ())), t, lastSeq)
      | .ok none => (.explain releasing id, t, lastSeq)
      | .error e => (.ended (.done (.error e)), t, lastSeq)
  | .explain releasing id, (t, lastSeq) => (.ended (.done (t.explain releasing id)), t, lastSeq)
  | .ended reply, x => (.ended reply, x)

/-- So many steps of a call, with nobody else in between and the clock standing still. -/
def steps (lease : LeaseSettings) (now : Timestamp) :
    Nat → Exchange → Table × Int → Exchange × Table × Int
  | 0, x, s => (x, s)
  | n + 1, x, s =>
      let (x, s) := step lease now x s
      steps lease now n x s

def finish (lease : LeaseSettings) (now : Timestamp) (x : Exchange) (s : Table × Int) :
    Exchange × Table × Int :=
  steps lease now x.rank x s

end Exchange

/-! ## Calls that nobody comes between -/

/-- The table after a call, with the last place given, unless the call fails. -/
def settled : Exchange × Table × Int → Except StoreError (Table × Int)
  | (.ended (.done (.error e)), _) => .error e
  | (_, s) => .ok s

/-- Makes a row for a record, or replaces the record of the row that is there. -/
def save (t : Table) (lastSeq : Int) (record : Record) (now : Timestamp) (lease : LeaseSettings) :
    Except StoreError (Table × Int) :=
  settled ((Exchange.select record false).finish lease now (t, lastSeq))

def lock (t : Table) (lastSeq : Int) (lease : LeaseSettings) (id owner : String)
    (now : Timestamp) : Except StoreError (Table × Int) :=
  settled ((Exchange.turn false id owner now).finish lease now (t, lastSeq))

def unlock (t : Table) (lastSeq : Int) (lease : LeaseSettings) (id owner : String)
    (now : Timestamp) : Except StoreError (Table × Int) :=
  settled ((Exchange.turn true id owner now).finish lease now (t, lastSeq))

def next (t : Table) (lastSeq : Int) (lease : LeaseSettings) (now : Timestamp) :
    Option (Record × Table × Int) :=
  match (Exchange.choose now).finish lease now (t, lastSeq) with
  | (.ended (.handed (some record)), s) => some (record, s)
  | _ => none

end Table
end LeaseQueue
