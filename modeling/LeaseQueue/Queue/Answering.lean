import LeaseQueue.Queue.Move
import LeaseQueue.Queue.System
/-!
# Moves of calls

How a call comes to its end: a call for a job asks the driver or stands in line
like a worker, a call for the idle workers asks one after the other, and a call for
progress looks at the queue again and again.
-/

namespace LeaseQueue
namespace System

variable {β : Type}

def endCall (s : System β) (c : Nat) (o : Outcome β) : System β := s.setCall c (.over o)

/-! ## Calls for a job -/

/-- A call that has found no dispatch loop asks the driver of the queue. -/
def fetchForCall (s : System β) (c q token : Nat) : System β :=
  match s.queueDriver q with
  | none => s.endCall c (.job none)
  | some d =>
      let (j, s) := s.driverNext d token
      s.endCall c (.job (j.map fun j => j.markDispatched s.now))

def takeForCall (s : System β) (c q : Nat) : Option (System β) := do
  let queue ← s.queues[q]?
  if queue.mayTake (.call c) then
    match queue.buffer with
    | [] => none
    | j :: buffer =>
        return (s.modifyQueue q fun queue =>
          { queue.leaveLine (.call c) with buffer := buffer }).endCall c (.job (some j))
  else none

def leaveForCall (s : System β) (c q : Nat) : System β :=
  (s.modifyQueue q fun queue => queue.leaveLine (.call c)).endCall c (.job none)

/-! ## Calls for the idle workers -/

/-- A call goes on to the next worker, with that many idle ones so far. -/
def nextWorker (s : System β) (c p i n : Nat) : System β := s.setCall c (.idle p (i + 1) n none none)

/-- A call that has asked a worker waits for the answer until a moment, or until the worker stops; a
stopped worker is not asked. -/
def countIdle (s : System β) (c p i n : Nat) (asked : Option Nat) (answer : Option Bool) :
    Option (System β) := do
  let pool ← s.pools[p]?
  match pool.workers[i]? with
  | none => return s.endCall c (.count n)
  | some w =>
      match answer, asked with
      | some idle, _ => return s.nextWorker c p i (if idle then n + 1 else n)
      | none, none =>
          if w.stopped then return s.nextWorker c p i n
          else
            let latest := s.clock + 4 * pool.pollNanos
            return (s.tell p i (.isIdle c)).setCall c (.idle p i n (some latest) none)
      | none, some _ => if w.stopped then return s.nextWorker c p i n else none

/-! ## Calls for progress -/

/-- A call looks whether its token is cancelled, and then at all jobs of the backend that the queue
works on at that time. A store in a table counts them at once, another one job by job. -/
def lookAtAll (s : System β) (q token : Nat) : Except Bool Stage :=
  if s.isCancelled token then .error false
  else match s.queueBackend q with
    | none => .error true
    | some k =>
        match s.backends[k]? with
        | none => .error true
        | some b => .ok (.counting k b.listing .zero)

/-- A call goes on counting the jobs of a backend: the next stage, or the answer. -/
def countOn (s : System β) (token interval k : Nat) (l : Listing) (t : Tally) : Except Bool Stage :=
  let settle (t : Tally) : Except Bool Stage :=
    if t.isComplete then .error true else .ok (.resting (s.clock + interval))
  match s.backends[k]? with
  | none => .error true
  | some b =>
      match b.storage with
      | .table .. => settle (b.tally (s.isCancelled token))
      | .memory .. =>
          match b.pull (s.isCancelled token) l with
          | (some i, l) => .ok (.counting k l (t.record i))
          | (none, _) => settle t

def lookAtJob (s : System β) (c q token : Nat) (id : String) (interval : Nat)
    (limit : Option Nat) : System β :=
  if s.isCancelled token then s.endCall c (.job none)
  else
    let (j, s) : Option (Job β) × System β :=
      match s.queueDriver q with
      | none => (none, s)
      | some d => s.driverGet d token id
    let rest := s.setCall c (.waitJob q token id interval limit (.resting (s.clock + interval)))
    match j with
    | some j => if j.status.isFinished then s.endCall c (.job (some j)) else rest
    | none => rest

/-! ## All moves of a call -/

def hasCome (s : System β) (limit : Option Nat) : Bool :=
  match limit with
  | some t => t ≤ s.clock
  | none => false

def proceedCall (s : System β) (c : Nat) : Call β → Option (System β)
  | .launch q d token => return (s.launchLoop q d token).endCall c .started
  | .fetch q token => return s.fetchForCall c q token
  | .next q _ _ => s.takeForCall c q
  | .sleep deadline => if deadline ≤ s.clock then return s.endCall c .nothing else none
  | .idle p i n asked answer => s.countIdle c p i n asked answer
  | .waitAll q token interval limit stage =>
      let settle (r : Except Bool Stage) : System β :=
        match r with
        | .error b => s.endCall c (.truth b)
        | .ok stage => s.setCall c (.waitAll q token interval limit stage)
      match stage with
      | .looking => return settle (s.lookAtAll q token)
      | .counting k l t => return settle (s.countOn token interval k l t)
      | .resting deadline => if deadline ≤ s.clock then return settle (.ok .looking) else none
  | .waitJob q token id interval limit stage =>
      match stage with
      | .resting deadline =>
          if deadline ≤ s.clock then return s.setCall c (.waitJob q token id interval limit .looking)
          else none
      | _ => return s.lookAtJob c q token id interval limit
  | .over _ => none

def timeOutCall (s : System β) (c : Nat) : Call β → Option (System β)
  | .next q _ deadline => if deadline ≤ s.clock then return s.leaveForCall c q else none
  | .idle p i n (some t) none => if t ≤ s.clock then return s.nextWorker c p i n else none
  | .waitAll _ _ _ limit (.resting deadline) =>
      if s.clock < deadline && s.hasCome limit then return s.endCall c .timedOut else none
  | .waitJob _ _ _ _ limit (.resting deadline) =>
      if s.clock < deadline && s.hasCome limit then return s.endCall c .timedOut else none
  | _ => none

def giveUpCall (s : System β) (c : Nat) : Call β → Option (System β)
  | .next q token _ => if s.isCancelled token then return s.leaveForCall c q else none
  | .waitAll _ token _ _ (.resting _) =>
      if s.isCancelled token then return s.endCall c (.truth false) else none
  | .waitJob _ token _ _ _ (.resting _) =>
      if s.isCancelled token then return s.endCall c (.job none) else none
  | _ => none

def callStep (s : System β) (c : Nat) (m : CallMove) : Option (System β) := do
  let call ← s.calls[c]?
  match m with
  | .proceed => s.proceedCall c call
  | .timeOut => s.timeOutCall c call
  | .giveUp => s.giveUpCall c call

end System
end LeaseQueue
