import LeaseQueue.Queue.Move
import LeaseQueue.Queue.System
/-!
# Moves of dispatch loops

A dispatch loop asks the driver for a job, stamps it as dispatched and puts it
into the buffer as soon as there is room; when there is no job it rests. It
ends when its token is cancelled.
-/

namespace LeaseQueue
namespace System

variable {β : Type}

def askForLoop (s : System β) (q i : Nat) (queue : Queue β) (l : Loop β) : System β :=
  match s.driverNext l.driver l.token with
  | (some j, s) => s.modifyQueue q fun queue => queue.setLoop i (.offering (j.markDispatched s.now))
  | (none, s) =>
      s.modifyQueue q fun queue' => queue'.setLoop i (.resting (s.clock + queue.pollNanos))

def offerJob (s : System β) (q i : Nat) (j : Job β) : System β :=
  s.modifyQueue q fun queue =>
    { queue with buffer := queue.buffer ++ [j] : Queue β }.setLoop i .asking

def loopStep (s : System β) (q i : Nat) (m : LoopMove) : Option (System β) := do
  let queue ← s.queues[q]?
  let l ← queue.loops[i]?
  match m with
  | .giveUp =>
      if s.isCancelled l.token then return s.modifyQueue q fun queue => queue.endLoop i else none
  | .proceed =>
      match l.phase with
      | .asking => if s.isCancelled l.token then none else return s.askForLoop q i queue l
      | .offering j => if queue.hasRoom then return s.offerJob q i j else none
      | .resting deadline =>
          if deadline ≤ s.clock then return s.modifyQueue q fun queue => queue.setLoop i .asking
          else none

end System
end LeaseQueue
