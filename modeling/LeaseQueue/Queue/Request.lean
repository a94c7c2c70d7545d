import LeaseQueue.Queue.System
/-!
# Requests

What a client may ask of a system. Most requests are answered at once; those
that may have to wait become calls.
-/

namespace LeaseQueue

/-- What a client asks. Tokens, drivers, pools and queues are given by number. -/
inductive Request (β : Type) where
  | addBackend (backend : Backend β) (driver : Driver)
  | addDriver (driver : Driver)
  | addPool (size pollMillis : Nat)
  | addQueue (settings : QueueSettings)
  | setDriver (queue driver : Nat)
  | setRunner (queue : Nat) (runner : Option Runner)
  | start (queue token : Nat)
  | dispatch (queue token : Nat)
  | put (queue token : Nat) (job : Job β)
  | get (queue token : Nat) (id : String)
  | tally (queue token : Nat)
  | infos (queue token : Nat)
  | startPool (pool token : Nat) (jobs : List (Job β)) (driver : Option Nat)
  | shutdown (pool : Nat)
  | cancel (token : Nat)
  | openDriver (driver token : Nat)
  | closeDriver (driver : Nat)
  | saveVia (driver token : Nat) (job : Job β)
  | getVia (driver token : Nat) (id : String)
  | nextVia (driver token : Nat)
  | lockVia (driver token : Nat) (id owner : String)
  | unlockVia (driver token : Nat) (id owner : String)
  | tallyVia (driver token : Nat)
  | next (queue token : Nat)
  | sleep (millis : Nat)
  | countIdle (pool : Nat)
  | waitAll (queue token intervalMillis : Nat) (limitMillis : Option Nat)
  | waitJob (queue token : Nat) (id : String) (intervalMillis : Nat) (limitMillis : Option Nat)

inductive Response (β : Type) where
  | done (r : Except QueueError Unit)
  /-- The request broke off half-way. -/
  | broken
  | job (j : Option (Job β))
  | tally (t : Tally)
  | infos (l : List StatusInfo)
  /-- The request became a call. -/
  | call (index : Nat)

namespace System

variable {β : Type}

def finished (s : System β) : Response β × System β := (.done (.ok ()), s)

def failing (s : System β) (e : QueueError) : Response β × System β := (.done (.error e), s)

def stored (r : Except StoreError Unit × System β) : Response β × System β :=
  match r with
  | (.ok _, s) => s.finished
  | (.error e, s) => s.failing (.store e)

def turned (r : LockChange StoreError Unit × System β) : Response β × System β :=
  match r with
  | (.made _, s) => s.finished
  | (.refused e, s) => s.failing (.store e)
  | (.broken _, s) => (.broken, s)

def beginCall (s : System β) (c : Call β) : Response β × System β :=
  (.call s.calls.length, { s with calls := s.calls ++ [c] })

def setDriver (s : System β) (q d : Nat) : Response β × System β :=
  match s.queues[q]? with
  | some queue =>
      if queue.started then s.failing .alreadyStarted
      else (s.modifyQueue q fun queue => { queue with driver := some d }).finished
  | none => s.finished

def setRunner (s : System β) (q : Nat) (r : Option Runner) : Response β × System β :=
  match s.queues[q]? with
  | some queue =>
      if queue.started then s.failing .alreadyStarted
      else (s.modifyQueue q fun queue => { queue with runner := r }).finished
  | none => s.finished

/-- Starts a pool on a source of jobs. A pool that has started stays as it is. -/
def startPool (s : System β) (p token : Nat) (source : Source β) :
    Except RunnerError Unit × System β :=
  match s.pools[p]? with
  | none => (.error .noWorkers, s)
  | some pool =>
      if pool.size = 0 then (.error .noWorkers, s)
      else if pool.started then (.ok (), s)
      else (.ok (), s.modifyPool p fun pool => pool.start token source)

def startRunner (s : System β) (r : Runner) (token q : Nat) : Except RunnerError Unit × System β :=
  match r with
  | .pool p => s.startPool p token (.queue q)
  | .broken => (.error (.spawn "no workers available"), s)

def setStarted (s : System β) (q : Nat) (b : Bool) : System β :=
  s.modifyQueue q fun queue => { queue with started := b }

/-- Starts a queue: opens its driver, starts its runner, and calls for its dispatch loop. If the
runner cannot be started the queue stays unstarted. -/
def start (s : System β) (q token : Nat) : Response β × System β :=
  match s.queues[q]? with
  | none => s.finished
  | some queue =>
      match queue.driver, queue.runner with
      | none, _ => s.failing (.notConfigured .driver)
      | some _, none => s.failing (.notConfigured .runner)
      | some d, some r =>
          if queue.started then s.finished
          else if s.runnerSize r = 0 then s.failing (.runner .noWorkers)
          else
            match s.driverOpen d token with
            | (.error e, s) => s.failing (.store e)
            | (.ok _, s) =>
                match (s.setStarted q true).startRunner r token q with
                | (.error e, s) => (s.setStarted q false).failing (.runner e)
                | (.ok _, s) => s.beginCall (.launch q d token)

def dispatch (s : System β) (q token : Nat) : Response β × System β :=
  match s.queueDriver q with
  | none => s.failing (.notConfigured .driver)
  | some d =>
      match s.driverOpen d token with
      | (.error e, s) => s.failing (.store e)
      | (.ok _, s) => (s.launchLoop q d token).finished

/-- Looks whether a dispatch loop of a queue runs: if so the next job comes from the buffer, else
from the driver. -/
def beginNext (s : System β) (q token : Nat) : Response β × System β :=
  match s.queues[q]? with
  | none => (.job none, s)
  | some queue =>
      if queue.dispatching then
        let c := s.calls.length
        (s.modifyQueue q fun queue => queue.enterLine (.call c)).beginCall
          (.next q token (s.clock + queue.pollNanos))
      else s.beginCall (.fetch q token)

def limitMoment (s : System β) (millis : Option Nat) : Option Nat :=
  millis.map fun n => s.clock + n * nanosPerMilli

def perform [Body β] (s : System β) : Request β → Response β × System β
  | .addBackend b d =>
      { s with
        backends := s.backends ++ [b]
        drivers := s.drivers ++ [{ d with backend := s.backends.length }] : System β }.finished
  | .addDriver d => { s with drivers := s.drivers ++ [d] : System β }.finished
  | .addPool size millis => { s with pools := s.pools ++ [.idle size millis] : System β }.finished
  | .addQueue settings =>
      { s with
        pools := s.pools ++ [.idle settings.workers settings.effectivePollMillis]
        queues := s.queues ++ [.idle settings s.pools.length] : System β }.finished
  | .setDriver q d => s.setDriver q d
  | .setRunner q r => s.setRunner q r
  | .start q token => s.start q token
  | .dispatch q token => s.dispatch q token
  | .put q token j =>
      match s.queueDriver q with
      | none => s.failing (.notConfigured .driver)
      | some d => stored (s.driverSave d token j)
  | .get q token id =>
      match s.queueDriver q with
      | none => (.job none, s)
      | some d =>
          let (j, s) := s.driverGet d token id
          (.job j, s)
  | .tally q token =>
      match s.queueDriver q with
      | none => (.tally .zero, s)
      | some d => (.tally (s.driverTally d token), s)
  | .infos q token =>
      match s.queueDriver q with
      | none => (.infos [], s)
      | some d => (.infos (s.driverInfos d token), s)
  | .startPool p token jobs d =>
      match s.startPool p token (.jobs jobs d) with
      | (.ok _, s) => s.finished
      | (.error e, s) => s.failing (.runner e)
  | .shutdown p =>
      (s.modifyPool p fun pool =>
        { pool with workers := pool.workers.map fun w => w.tell .shutdown }).finished
  | .cancel token => { s with cancelled := s.cancelled ++ [token] : System β }.finished
  | .openDriver d token => stored (s.driverOpen d token)
  | .closeDriver d => (s.driverClose d).finished
  | .saveVia d token j => stored (s.driverSave d token j)
  | .getVia d token id =>
      let (j, s) := s.driverGet d token id
      (.job j, s)
  | .nextVia d token =>
      let (j, s) := s.driverNext d token
      (.job j, s)
  | .lockVia d token id owner => turned (s.driverLock d token id owner)
  | .unlockVia d token id owner => turned (s.driverUnlock d token id owner)
  | .tallyVia d token => (.tally (s.driverTally d token), s)
  | .next q token => s.beginNext q token
  | .sleep millis => s.beginCall (.sleep (s.clock + millis * nanosPerMilli))
  | .countIdle p => s.beginCall (.idle p 0 0 none none)
  | .waitAll q token interval limit =>
      s.beginCall (.waitAll q token (interval * nanosPerMilli) (s.limitMoment limit) .looking)
  | .waitJob q token id interval limit =>
      s.beginCall (.waitJob q token id (interval * nanosPerMilli) (s.limitMoment limit) .looking)

end System
end LeaseQueue
