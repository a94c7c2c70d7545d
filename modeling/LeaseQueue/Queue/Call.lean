import LeaseQueue.Store.Backend
/-!
# Calls that wait

A client's call that is not answered at once: for a dispatch loop to be launched,
for a job, for some time, for the number of idle workers, or for the progress of a
queue.
-/

namespace LeaseQueue

inductive Stage where
  /-- It is about to look. -/
  | looking
  /-- It goes through the list of jobs of a backend and counts them. -/
  | counting (backend : Nat) (listing : Listing) (tally : Tally)
  | resting (deadline : Nat)

/-- What a call gives in the end. -/
inductive Outcome (β : Type) where
  | nothing
  /-- The queue has started. -/
  | started
  | job (j : Option (Job β))
  | truth (b : Bool)
  | count (n : Nat)
  | timedOut

/-- A call that may have to wait. Moments and spans are in nanoseconds. -/
inductive Call (β : Type) where
  /-- For the dispatch loop of a queue whose runner has started. -/
  | launch (queue driver token : Nat)
  /-- For a job straight from the driver of a queue that had no dispatch loop. -/
  | fetch (queue token : Nat)
  /-- For a job from the buffer of a queue, until a moment. -/
  | next (queue token deadline : Nat)
  /-- For a moment. -/
  | sleep (deadline : Nat)
  /-- For the workers of a pool, one after the other, to say whether they are idle: the worker that
  is asked now, until when its answer is waited for if it was asked already, and the answer. -/
  | idle (pool worker count : Nat) (asked : Option Nat) (answer : Option Bool)
  /-- For all jobs of a queue to be finished. -/
  | waitAll (queue token interval : Nat) (limit : Option Nat) (stage : Stage)
  /-- For one job of a queue to be finished. -/
  | waitJob (queue token : Nat) (id : String) (interval : Nat) (limit : Option Nat) (stage : Stage)
  /-- For nothing more. -/
  | over (outcome : Outcome β)

namespace Call

variable {β : Type}

def stageDeadlines : Stage → List Nat
  | .resting t => [t]
  | _ => []

def deadlines : Call β → List Nat
  | .next _ _ t => [t]
  | .sleep t => [t]
  | .idle _ _ _ (some t) none => [t]
  | .waitAll _ _ _ limit stage => stageDeadlines stage ++ limit.toList
  | .waitJob _ _ _ _ limit stage => stageDeadlines stage ++ limit.toList
  | _ => []

def outcome? : Call β → Option (Outcome β)
  | .over o => some o
  | _ => none

end Call
end LeaseQueue
