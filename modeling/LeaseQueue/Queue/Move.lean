/-!
# Moves

Everything that goes on in a system by itself is cut into moves, each with at
most one call of a driver: moves of workers, of dispatch loops, of those that
watch for a cancellation, and of calls. Whatever can move is a task.
-/

namespace LeaseQueue

inductive WorkerMove where
  /-- Handle the next message. -/
  | handle
  /-- Go on with what it is doing. -/
  | proceed
  | take
  /-- Stop waiting for a job. -/
  | timeOut
  /-- Heed that the token is cancelled. -/
  | giveUp
  /-- Renew the lock of the job it runs. -/
  | renew
  /-- End the attempt at the job it runs. -/
  | finish
deriving Repr, DecidableEq

inductive LoopMove where
  | proceed
  /-- Heed that the token is cancelled. -/
  | giveUp
deriving Repr, DecidableEq

inductive CallMove where
  | proceed
  | timeOut
  /-- Heed that the token is cancelled. -/
  | giveUp
deriving Repr, DecidableEq

inductive Move where
  | worker (pool index : Nat) (m : WorkerMove)
  /-- A worker is told to poll as it was planned. -/
  | alarm (pool index : Nat)
  /-- The workers of a pool are told to stop since its token is cancelled. -/
  | watch (pool : Nat)
  | loop (queue index : Nat) (m : LoopMove)
  | call (index : Nat) (m : CallMove)
deriving Repr, DecidableEq

inductive Task where
  | worker (pool index : Nat)
  | alarm (pool index : Nat)
  | watch (pool : Nat)
  | loop (queue index : Nat)
  | call (index : Nat)
deriving Repr, DecidableEq

/-- The moves of a task, the preferred ones first: a cancellation is heeded before all else, a job is
taken although the wait is over, and an attempt that is over needs no longer lease. -/
def Task.moves : Task → List Move
  | .worker p i =>
      [.worker p i .giveUp, .worker p i .handle, .worker p i .proceed, .worker p i .finish,
        .worker p i .renew, .worker p i .take, .worker p i .timeOut]
  | .alarm p i => [.alarm p i]
  | .watch p => [.watch p]
  | .loop q i => [.loop q i .giveUp, .loop q i .proceed]
  | .call c => [.call c .giveUp, .call c .proceed, .call c .timeOut]

end LeaseQueue
