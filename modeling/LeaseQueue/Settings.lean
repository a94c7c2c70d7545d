import LeaseQueue.Json.Reading
import LeaseQueue.Text.Quoted
/-!
# Settings

How a queue dispatches, how long leases and hand-outs last, and where a table
store keeps its jobs. Limits that make no sense as zero count as one.
-/

namespace LeaseQueue

structure Span where
  seconds : Nat
  nanos : Nat
deriving Repr, DecidableEq

def Span.millis (s : Span) : Nat :=
  min (s.seconds * 1000 + s.nanos / 1000000) maxUInt64

def Span.wholeSeconds (s : Span) : Nat :=
  min (s.seconds + s.nanos / 1000000000) maxUInt64

structure QueueSettings where
  /-- Workers of the queue's own pool. -/
  workers : Nat
  /-- Milliseconds between two looks for work. -/
  pollMillis : Nat
  /-- Jobs that may wait between the dispatch loop and the workers. -/
  buffer : Nat
deriving Repr, DecidableEq

namespace QueueSettings

def standard : QueueSettings := ⟨2, 50, 16⟩

def effectivePollMillis (s : QueueSettings) : Nat := max s.pollMillis 1

def effectiveBuffer (s : QueueSettings) : Nat := max s.buffer 1

def withWorkers (s : QueueSettings) (n : Nat) : QueueSettings := { s with workers := n }

def withPollInterval (s : QueueSettings) (span : Span) : QueueSettings :=
  { s with pollMillis := span.millis }

def toJson (s : QueueSettings) : Json :=
  .ofMembers [("workers", .count s.workers), ("poll_interval_ms", .count s.pollMillis),
    ("dispatch_buffer", .count s.buffer)]

def fields : List (Document.Field QueueSettings) := [
  .optional "workers" Document.toCount fun v s => { s with workers := v },
  .optional "poll_interval_ms" Document.toCount fun v s => { s with pollMillis := v },
  .optional "dispatch_buffer" Document.toCount fun v s => { s with buffer := v }]

def ofDocument : Nat → Document → Except Failure QueueSettings :=
  Document.toRecord fields standard

end QueueSettings

structure LeaseSettings where
  /-- Seconds after which a lock that was not renewed counts as abandoned. -/
  lockSeconds : Nat
  /-- Milliseconds within which a job is not handed out again. -/
  windowMillis : Nat
deriving Repr, DecidableEq

namespace LeaseSettings

def standard : LeaseSettings := ⟨300, 1000⟩

/-- The lease in nanoseconds. -/
def lockTimeout (s : LeaseSettings) : Nat := s.lockSeconds * 1000000000

/-- The dispatch window in nanoseconds. -/
def window (s : LeaseSettings) : Nat := s.windowMillis * 1000000

def withLockTimeout (s : LeaseSettings) (span : Span) : LeaseSettings :=
  { s with lockSeconds := max span.wholeSeconds 1 }

def withDispatchWindow (s : LeaseSettings) (span : Span) : LeaseSettings :=
  { s with windowMillis := span.millis }

def toJson (s : LeaseSettings) : Json :=
  .ofMembers [("lock_timeout_secs", .count s.lockSeconds),
    ("dispatch_window_ms", .count s.windowMillis)]

def fields : List (Document.Field LeaseSettings) := [
  .optional "lock_timeout_secs" Document.toCount fun v s => { s with lockSeconds := v },
  .optional "dispatch_window_ms" Document.toCount fun v s => { s with windowMillis := v }]

def ofDocument : Nat → Document → Except Failure LeaseSettings :=
  Document.toRecord fields standard

end LeaseSettings

structure TableSettings where
  endpoint : String
  realm : String
  database : String
  /-- The table with one row for each job. -/
  table : String
  /-- Name and password of the administrator, where the server asks for them. -/
  credentials : Option (String × String)
deriving Repr, DecidableEq

namespace TableSettings

def inMemory : TableSettings := ⟨"mem://", "jobqueue", "main", "job", none⟩

def inFile (path : String) : TableSettings := { inMemory with endpoint := "file://" ++ path }

def inDirectory (path : String) : TableSettings := { inMemory with endpoint := "rocksdb://" ++ path }

/-- Whether a name may stand in a statement as it is: letters, digits and underscores of ASCII, no
digit first. -/
def isIdentifier : List Char → Bool
  | [] => false
  | c :: rest => !c.isDigit && (c :: rest).all fun c => c.isAlphanum || c = '_'

/-- What is wrong with the table's name, if it cannot stand in a statement. -/
def problem (s : TableSettings) : Option String :=
  if isIdentifier s.table.toList then none
  else some ("table name must be an identifier: " ++ Text.quoted s.table)

def credentialsJson (c : String × String) : Json := .texts [c.1, c.2]

def toJson (s : TableSettings) : Json :=
  .ofMembers <| [("endpoint", .string s.endpoint), ("namespace", .string s.realm),
    ("database", .string s.database), ("table", .string s.table)] ++
    match s.credentials with
    | some c => [("credentials", credentialsJson c)]
    | none => []

def toCredentials (room : Nat) : Document → Except Failure (String × String)
  | .array items tail => do
      let _ ← Document.enter room
      match items with
      | [] => do
          Document.endOf tail
          .error .mismatched
      | [a] => do
          let _ ← a.toText
          Document.endOf tail
          .error .mismatched
      | a :: b :: more => do
          let a ← a.toText
          let b ← b.toText
          Document.endAfterLast more tail
          return (a, b)
  | d => .error d.refusal

def fields : List (Document.Field TableSettings) := [
  .optional "endpoint" Document.toText fun v s => { s with endpoint := v },
  .optional "namespace" Document.toText fun v s => { s with realm := v },
  .optional "database" Document.toText fun v s => { s with database := v },
  .optional "table" Document.toText fun v s => { s with table := v },
  .optionalDeep "credentials" (fun room => Document.toOption (toCredentials room))
    fun v s => { s with credentials := v }]

def ofDocument : Nat → Document → Except Failure TableSettings :=
  Document.toRecord fields inMemory

end TableSettings
end LeaseQueue
