import LeaseQueue.Queue.Move
import LeaseQueue.Queue.System
/-!
# Moves of workers

How a worker handles its messages, gets a job, and takes the job through lock,
dependency, attempt, storing and release. A job that cannot be locked, that is
finished, or that has to wait for others is left without an attempt; an attempt
that is called off, or whose lock is lost, leaves the stored job as it is.
-/

namespace LeaseQueue
namespace System

variable {β : Type}

/-! ## Messages -/

/-- Answers a caller that asks whether a worker is idle, unless the caller has moved on. -/
def answerIdle (s : System β) (p i : Nat) (w : Worker β) (c : Nat) : System β :=
  match s.calls[c]? with
  | some (.idle p' i' n (some t) none) =>
      if p' = p && i' = i then
        s.setCall c (.idle p i n (some t) (some w.currentJob.isNone))
      else s
  | _ => s

/-- A resting worker stops if it was told so, else it handles its oldest message. -/
def handleMessage (s : System β) (p i : Nat) (pool : Pool β) (w : Worker β) : Option (System β) :=
  if w.stopped then none
  else if w.stopping then some (s.modifyWorker p i Worker.stop)
  else match w.mailbox with
    | [] => none
    | m :: rest =>
        let s := s.modifyWorker p i fun w => { w with mailbox := rest }
        match m with
        | .poll =>
            some <| s.modifyWorker p i fun w =>
              if s.isCancelled pool.token then w.halt else w.goto .asking
        | .isIdle c => some (s.answerIdle p i w c)
        | .shutdown => some (s.modifyWorker p i Worker.halt)

/-! ## Getting a job -/

def restWorker (s : System β) (p i : Nat) (pool : Pool β) : System β :=
  s.modifyWorker p i fun w => w.sleepUntil (s.clock + pool.pollNanos)

/-- A worker asks a queue for a job: it stands in line while a dispatch loop runs, else it is about
to ask the driver. -/
def askQueue (s : System β) (p i : Nat) (q : Nat) (queue : Queue β) : System β :=
  if queue.dispatching then
    (s.modifyQueue q fun queue => queue.enterLine (.worker p i)).modifyWorker p i
      fun w => w.goto (.waiting (s.clock + queue.pollNanos))
  else s.modifyWorker p i fun w => w.goto .fetching

/-- A worker asks the driver for a job, whether or not a dispatch loop has come in the meantime. -/
def fetchJob (s : System β) (p i : Nat) (pool : Pool β) : System β :=
  match s.sourceDriver pool.source with
  | none => s.restWorker p i pool
  | some d =>
      match s.driverNext d pool.token with
      | (some j, s) => s.modifyWorker p i fun w => w.takeUp (j.markDispatched s.now)
      | (none, s) => s.restWorker p i pool

def askSource (s : System β) (p i : Nat) (pool : Pool β) : Option (System β) :=
  match pool.source with
  | none => none
  | some (.jobs [] _) => some (s.restWorker p i pool)
  | some (.jobs (j :: left) d) =>
      some <| (s.modifyPool p fun pool => { pool with source := some (.jobs left d) }).modifyWorker
        p i fun w => w.takeUp j
  | some (.queue q) => do return s.askQueue p i q (← s.queues[q]?)

def takeFromBuffer (s : System β) (p i : Nat) (pool : Pool β) : Option (System β) :=
  match pool.source with
  | some (.queue q) => do
      let queue ← s.queues[q]?
      if queue.mayTake (.worker p i) then
        match queue.buffer with
        | [] => none
        | j :: buffer =>
            return (s.modifyQueue q fun queue =>
              { queue.leaveLine (.worker p i) with buffer := buffer }).modifyWorker p i
                fun w => w.takeUp j
      else none
  | _ => none

def stopWaiting (s : System β) (p i : Nat) (pool : Pool β) : System β :=
  let s := match pool.source with
    | some (.queue q) => s.modifyQueue q fun queue => queue.leaveLine (.worker p i)
    | _ => s
  s.restWorker p i pool

/-! ## Working on a job -/

/-- A worker takes the lock of its candidate, unless that is finished or there is no driver. It
breaks down on a lock that breaks off. -/
def claimCandidate (s : System β) (p i : Nat) (pool : Pool β) (candidate : Job β) : System β :=
  match s.sourceDriver pool.source with
  | none => s.modifyWorker p i Worker.finishJob
  | some d =>
      if candidate.status.isFinished then s.modifyWorker p i Worker.finishJob
      else
        let claim : Claim := ⟨candidate.id, d, ownerName (s.driverName d) i⟩
        match s.driverLock d pool.token claim.id claim.owner with
        | (.made _, s) => s.modifyWorker p i fun w => w.goto (.loading claim)
        | (.refused _, s) => s.modifyWorker p i Worker.finishJob
        | (.broken _, s) => s.modifyWorker p i Worker.crash

/-- A worker reads the stored copy of the job it has locked, and gives the job back if there is none
or it is finished. -/
def loadJob (s : System β) (p i : Nat) (pool : Pool β) (claim : Claim) : System β :=
  match s.driverGet claim.driver pool.token claim.id with
  | (some j, s) =>
      if j.status.isFinished then s.modifyWorker p i fun w => w.goto (.releasing claim)
      else s.modifyWorker p i fun w => w.goto (.checking claim j j.base.dependency.waitsFor [])
  | (none, s) => s.modifyWorker p i fun w => w.goto (.releasing claim)

/-- A worker begins an attempt: it is entered in the log, and the lock is to be renewed after half
its timeout. -/
def beginAttempt [Body β] (s : System β) (p i : Nat) (claim : Claim) (j : Job β) : System β :=
  let j := j.begun s.now
  let endsAt := s.clock + (Body.attempt j.body).lasts
  let renewAt := s.clock + s.lockTimeout claim.driver / 2
  { s with runs := s.runs ++ [⟨claim.owner, j, s.clock⟩] : System β }.modifyWorker p i
    fun w => w.goto (.running claim j endsAt renewAt)

/-- A worker looks up the next job that its job waits for; when there is none left, the dependency
says what becomes of its job. -/
def checkDependency [Body β] (s : System β) (p i : Nat) (pool : Pool β) (claim : Claim) (j : Job β)
    (left : List String) (known : List (String × Option Bool)) : System β :=
  match left with
  | e :: left =>
      let (other, s) := s.driverGet claim.driver pool.token e
      s.modifyWorker p i fun w =>
        w.goto (.checking claim j left ((e, other.map fun o => o.status.completed) :: known))
  | [] =>
      match j.base.dependency.state s.files fun e => (known.lookup e).join with
      | .ready => s.beginAttempt p i claim j
      | .passed => s.modifyWorker p i fun w => w.goto (.storing claim j.passed false)
      | .blocked | .unresolved => s.modifyWorker p i fun w => w.goto (.releasing claim)

def endAttempt [Body β] (s : System β) (p i : Nat) (claim : Claim) (j : Job β) : System β :=
  s.modifyWorker p i fun w => w.goto (.storing claim (j.attempted.ended s.now) true)

/-- A worker renews the lock of the job it runs. When the lock is lost it drops the attempt, and when
the renewal breaks off it breaks down. -/
def renewLock (s : System β) (p i : Nat) (pool : Pool β) (claim : Claim) (j : Job β)
    (endsAt : Nat) : System β :=
  match s.driverLock claim.driver pool.token claim.id claim.owner with
  | (.made _, s) =>
      s.modifyWorker p i fun w =>
        w.goto (.running claim j endsAt (s.clock + s.lockTimeout claim.driver / 2))
  | (.refused _, s) => s.modifyWorker p i Worker.finishJob
  | (.broken _, s) => s.modifyWorker p i Worker.crash

def storeJob [Body β] (s : System β) (p i : Nat) (pool : Pool β) (claim : Claim) (j : Job β)
    (counts : Bool) : System β :=
  match s.driverSave claim.driver pool.token j with
  | (.ok _, s) =>
      s.modifyWorker p i fun w =>
        { w with
          phase := .releasing claim
          completed := if counts && j.status.completed then w.completed + 1 else w.completed }
  | (.error _, s) => s.modifyWorker p i fun w => w.goto (.releasing claim)

/-- A worker releases the lock and is done with the job, whether or not the release is refused. It
breaks down on a release that breaks off. -/
def releaseJob (s : System β) (p i : Nat) (pool : Pool β) (claim : Claim) : System β :=
  match s.driverUnlock claim.driver pool.token claim.id claim.owner with
  | (.broken _, s) => s.modifyWorker p i Worker.crash
  | (_, s) => s.modifyWorker p i Worker.finishJob

/-! ## All moves of a worker -/

def workerStep [Body β] (s : System β) (p i : Nat) (m : WorkerMove) : Option (System β) := do
  let pool ← s.pools[p]?
  let w ← pool.workers[i]?
  let cancelled := s.isCancelled pool.token
  match m, w.phase with
  | .handle, .resting => s.handleMessage p i pool w
  | .proceed, .asking => s.askSource p i pool
  | .giveUp, .asking => if cancelled then return s.restWorker p i pool else none
  | .proceed, .fetching => return s.fetchJob p i pool
  | .giveUp, .fetching => if cancelled then return s.restWorker p i pool else none
  | .take, .waiting _ => s.takeFromBuffer p i pool
  | .timeOut, .waiting deadline =>
      if deadline ≤ s.clock then return s.stopWaiting p i pool else none
  | .giveUp, .waiting _ => if cancelled then return s.stopWaiting p i pool else none
  | .proceed, .claiming j => return s.claimCandidate p i pool j
  | .proceed, .loading claim => return s.loadJob p i pool claim
  | .proceed, .checking claim j left known => return s.checkDependency p i pool claim j left known
  | .finish, .running claim j endsAt _ =>
      if endsAt ≤ s.clock then return s.endAttempt p i claim j else none
  | .renew, .running claim j endsAt renewAt =>
      if renewAt ≤ s.clock then return s.renewLock p i pool claim j endsAt else none
  | .giveUp, .running .. => if cancelled then return s.modifyWorker p i Worker.finishJob else none
  | .proceed, .storing claim j counts => return s.storeJob p i pool claim j counts
  | .proceed, .releasing claim => return s.releaseJob p i pool claim
  | _, _ => none

/-- The list without the earliest of the moments that have come, if there is one. -/
def withoutDue (clock : Nat) (moments : List Nat) : Option (List Nat) :=
  (moments.filter (· ≤ clock)).min?.map moments.erase

def ringAlarm (s : System β) (p i : Nat) : Option (System β) := do
  let alarms ← withoutDue s.clock (← (← s.pools[p]?).workers[i]?).alarms
  return s.modifyWorker p i fun w => { w with alarms := alarms }.tell .poll

/-- The workers of a pool are told to stop once its token is cancelled. -/
def watchPool (s : System β) (p : Nat) : Option (System β) := do
  let pool ← s.pools[p]?
  if pool.watching && s.isCancelled pool.token then
    return s.modifyPool p fun pool =>
      { pool with workers := pool.workers.map Worker.halt, watching := false }
  else none

end System
end LeaseQueue
