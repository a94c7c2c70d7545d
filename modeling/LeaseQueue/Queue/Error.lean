import LeaseQueue.Store.Error
/-!
# Errors of queues

Why a queue cannot be set up, started or used.
-/

namespace LeaseQueue

inductive RunnerError where
  | noWorkers
  | spawn (reason : String)
deriving Repr, DecidableEq

namespace RunnerError

def message : RunnerError → String
  | .noWorkers => "Worker pool size must be positive"
  | .spawn reason => "Failed to spawn worker: " ++ reason

end RunnerError

inductive Part where
  | driver
  | runner
deriving Repr, DecidableEq

inductive QueueError where
  | notConfigured (part : Part)
  /-- The queue has started and keeps its parts. -/
  | alreadyStarted
  | store (e : StoreError)
  | runner (e : RunnerError)
deriving Repr, DecidableEq

namespace QueueError

def message : QueueError → Option String
  | .notConfigured .driver => some "Queue is not configured: no driver set"
  | .notConfigured .runner => some "Queue is not configured: no runner set"
  | .alreadyStarted => some "Queue has already started"
  | .store e => e.message
  | .runner e => some e.message

end QueueError
end LeaseQueue
