import LeaseQueue.Queue.Answering
import LeaseQueue.Queue.Dispatching
import LeaseQueue.Queue.Working
/-!
# Steps of a system

Any order of moves is a run of the system. Time passes only when nothing can
move, up to the next moment that something waits for.
-/

namespace LeaseQueue
namespace System

variable {β : Type} [Body β]

def step (s : System β) : Move → Option (System β)
  | .worker p i m => s.workerStep p i m
  | .alarm p i => s.ringAlarm p i
  | .watch p => s.watchPool p
  | .loop q i m => s.loopStep q i m
  | .call c m => s.callStep c m

def advance (s : System β) (t : Task) : Option (System β) := t.moves.findSome? s.step

def canMove (s : System β) (t : Task) : Bool := (s.advance t).isSome

omit [Body β] in
def watchTasks (s : System β) : List Task := (List.range s.pools.length).map .watch

omit [Body β] in
def workerTasks (s : System β) : List Task :=
  s.pools.zipIdx.flatMap fun (pool, p) => (List.range pool.workers.length).map (.worker p)

omit [Body β] in
def alarmTasks (s : System β) : List Task :=
  s.pools.zipIdx.flatMap fun (pool, p) => (List.range pool.workers.length).map (.alarm p)

omit [Body β] in
def loopTasks (s : System β) : List Task :=
  s.queues.zipIdx.flatMap fun (queue, q) => (List.range queue.loops.length).map (.loop q)

omit [Body β] in
def callTasks (s : System β) : List Task := (List.range s.calls.length).map .call

def isStill (s : System β) : Bool :=
  (s.watchTasks ++ s.workerTasks ++ s.alarmTasks ++ s.loopTasks ++ s.callTasks).all
    fun t => !s.canMove t

/-- The system at the next moment that something waits for, when nothing can move before. -/
def tick (s : System β) : Option (System β) :=
  if s.isStill then s.nextDeadline.map fun t => { s with clock := t } else none

end System
end LeaseQueue
