import LeaseQueue.Job.Status
import LeaseQueue.Settings
/-!
# Errors of stores

Why an operation on a store fails. Conflicts between owners are told apart from
the rest: after them one goes on with another job.
-/

namespace LeaseQueue

inductive SaveConflict where
  /-- The stored copy has changed since. -/
  | newer (stored incoming : UInt64)
  /-- Another owner holds the job. -/
  | locked (owner : String)
  /-- The stored copy changed while the save was under way. -/
  | concurrent
deriving Repr, DecidableEq

namespace SaveConflict

def message : SaveConflict → String
  | .newer stored incoming =>
      "stored copy is newer (mod count " ++ toString stored.toNat ++ " > " ++
        toString incoming.toNat ++ ")"
  | .locked owner => "locked by " ++ owner
  | .concurrent => "modified concurrently"

end SaveConflict

inductive StoreError where
  /-- The store cannot be reached. -/
  | connection
  /-- The store was not opened. -/
  | notOpen
  | conflict (id : String) (reason : SaveConflict)
  | lock (reason : LockConflict)
  | notFound (id : String)
  /-- The job cannot be written. -/
  | unwritable (reason : String)
  /-- The store refuses the request. -/
  | database
  | invalidSettings (reason : String)
  | cancelled
deriving Repr, DecidableEq

namespace StoreError

/-- An error as text. What lies outside the store has no text of its own. -/
def message : StoreError → Option String
  | .connection => none
  | .notOpen => some "Driver is not open"
  | .conflict id reason => some ("Conflict saving job " ++ id ++ ": " ++ reason.message)
  | .lock reason => some reason.message
  | .notFound id => some ("Not found: " ++ id)
  | .unwritable reason => some ("Serialization error: " ++ reason)
  | .database => none
  | .invalidSettings reason => some ("Invalid configuration: " ++ reason)
  | .cancelled => some "Operation cancelled"

def isContention : StoreError → Bool
  | .conflict _ _ => true
  | .lock _ => true
  | _ => false

end StoreError

namespace TableSettings

def validate (s : TableSettings) : Except StoreError Unit :=
  match s.problem with
  | none => .ok ()
  | some reason => .error (.invalidSettings reason)

end TableSettings
end LeaseQueue
