import LeaseQueue.Proofs.Queue.Execution
import LeaseQueue.Proofs.Queue.Receipts
import LeaseQueue.Proofs.Store.Rows
/-!
# Owners of workers

The owner under which a worker takes locks is made of the name of its driver and its place in its
pool. So it is its own among all workers of that driver only while these are of one pool: pools that
are given one driver have workers of one owner, which do not exclude each other.
-/

namespace LeaseQueue

variable {β : Type}

def Storage.memory? : Storage → Option Memory
  | .memory _ m => some m
  | .table .. => none

theorem Storage.memory?_eq_some {c : Storage} {m : Memory} :
    c.memory? = some m ↔ ∃ d, c = .memory d m := by
  cases c with
  | memory d m' => simp [memory?]
  | table settings connection lastSeq => simp [memory?]

namespace Backend

/-- A job is locked in a store, and the lease of its owner is live. -/
inductive LeasedTo (b : Backend β) (now : Reading) (id owner : String) : Prop where
  | memory {d : Discipline} {m : Memory} {t : Timestamp} : b.storage = .memory d m →
      m.HeldAt id owner t → now.wall.since t < b.lease.lockTimeout → LeasedTo b now id owner
  | table {settings : TableSettings} {t : Table} {lastSeq : Int} {r : Row} :
      b.storage = .table settings (some t) lastSeq → t.select id = some r →
      r.leaseMillis = Row.leaseOf r.status → r.Leased b.lease now.wall owner →
      now.wall.Shown → LeasedTo b now id owner

theorem LeasedTo.lock_other {b : Backend β} {now : Reading} {id owner other : String}
    (h : b.LeasedTo now id owner) (hne : owner ≠ "") (hother : other ≠ owner) (cancelled : Bool) :
    ∃ err, b.lock cancelled now id other = .refused err := by
  unfold lock
  cases h with
  | @memory d m t hb hheld hlive =>
      rcases hheld with ⟨e, he, hs⟩
      have hrefused : m.lock id other now.wall b.lease.lockTimeout =
          .refused (.lock (.held id owner)) := by
        unfold Memory.lock
        simp only [he, hs.lock_other hne hlive hother]
        rfl
      rw [hb]
      dsimp only
      rw [hrefused]
      exact ⟨_, rfl⟩
  | @table settings t lastSeq r hb hr hlease hheld hshown =>
      rw [hb]
      cases cancelled with
      | true => exact ⟨.cancelled, rfl⟩
      | false =>
          have hid : r.id = id := (Table.mem_of_select hr).2
          subst hid
          rcases Table.lock_of_leased hr hheld hshown hlease hother lastSeq with ⟨err, hrefused⟩
          refine ⟨err, ?_⟩
          show LockChange.ofExcept (t.lock lastSeq b.lease r.id other now.wall >>= fun t => _) = _
          rw [hrefused]
          rfl

end Backend

namespace System

variable {s s' : System β} {p i p' i' d d' : Nat} {pool pool' : Pool β}

theorem ownerAt_of_source (hpool : s.pools[p]? = some pool)
    (hsource : s.sourceDriver pool.source = some d) (i : Nat) :
    s.ownerAt p i = ownerName (s.driverName d) i := by
  unfold ownerAt
  rw [hpool, Option.bind_some, hsource]

theorem driverLock_refused {driver : Driver} {b : Backend β} {id owner other : String}
    (hdriver : s.drivers[d]? = some driver) (hb : s.backends[driver.backend]? = some b)
    (hleased : b.LeasedTo s.reading id owner) (hne : owner ≠ "") (hother : other ≠ owner)
    (token : Nat) :
    ∃ err s₁, s.driverLock d token id other = (.refused err, s₁) ∧ s₁.backends = s.backends ∧
      s₁.runs = s.runs ∧ s₁.pools = s.pools := by
  rcases hleased.lock_other hne hother (s.isCancelled token) with ⟨err, hrefused⟩
  unfold driverLock viaDriver
  rw [hdriver]
  have hbackend : (driver.begin .lock).2.backend = driver.backend := rfl
  cases hfails : (driver.begin .lock).1 with
  | true =>
      simp only [hfails, if_true]
      exact ⟨_, _, rfl, rfl, rfl, rfl⟩
  | false =>
      simp only [hfails, hbackend, hb, hrefused]
      have hsame : s.backends.set driver.backend b = s.backends := by
        rcases List.getElem?_eq_some_iff.mp hb with ⟨hlt, heq⟩
        rw [← heq, List.set_getElem_self]
      exact ⟨err, { s with
        drivers := s.drivers.set d (driver.begin .lock).2
        backends := s.backends.set driver.backend b }, rfl, hsame, rfl, rfl⟩

/-- A worker that is not given the lock of its candidate leaves the job alone and rests. -/
theorem claim_refused [Body β] {candidate : Job β} {driver : Driver} {b : Backend β} {owner : String}
    (hpool : s.pools[p]? = some pool) (hsource : s.sourceDriver pool.source = some d)
    (hphase : s.phaseAt p i = some (.claiming candidate)) (hdriver : s.drivers[d]? = some driver)
    (hb : s.backends[driver.backend]? = some b)
    (hleased : b.LeasedTo s.reading candidate.id owner) (hne : owner ≠ "")
    (hother : s.ownerAt p i ≠ owner) (h : s.workerStep p i .proceed = some s') :
    s'.backends = s.backends ∧ s'.runs = s.runs ∧ s'.phaseAt p i = some .resting := by
  rcases Option.map_eq_some_iff.mp hphase with ⟨w, hworker, hat⟩
  have hw : pool.workers[i]? = some w := by
    unfold workerAt at hworker
    rw [hpool] at hworker
    exact hworker
  have hclaim : s.claimCandidate p i pool candidate = s' := by
    unfold workerStep at h
    simp only [Option.bind_eq_bind, hpool, hw, Option.bind_some, hat] at h
    exact Option.some.inj h
  rw [ownerAt_of_source hpool hsource] at hother
  unfold claimCandidate at hclaim
  rw [hsource] at hclaim
  dsimp only at hclaim
  split at hclaim
  · subst hclaim
    exact ⟨rfl, rfl, phaseAt_modifyWorker_self hworker _⟩
  · rcases driverLock_refused hdriver hb hleased hne hother pool.token with
      ⟨err, s₁, hrefused, hbackends, hruns, hpools⟩
    rw [hrefused] at hclaim
    subst hclaim
    have hworker₁ : s₁.workerAt p i = some w := by
      unfold workerAt
      rw [hpools]
      exact hworker
    exact ⟨hbackends, hruns, phaseAt_modifyWorker_self hworker₁ _⟩

/-- Two workers have one owner exactly if their drivers have one name and their places in their pools
are the same. If not, then what the one has locked with a live lease the other one cannot claim. -/
theorem workers_share_owner_iff [Body β] (i i' : Nat) (hpool : s.pools[p]? = some pool)
    (hsource : s.sourceDriver pool.source = some d) (hpool' : s.pools[p']? = some pool')
    (hsource' : s.sourceDriver pool'.source = some d') :
    (s.ownerAt p i = s.ownerAt p' i' ↔ s.driverName d = s.driverName d' ∧ i = i') ∧
      (¬ (s.driverName d = s.driverName d' ∧ i = i') →
        ∀ candidate driver b s', s.phaseAt p' i' = some (.claiming candidate) →
          s.drivers[d']? = some driver → s.backends[driver.backend]? = some b →
          b.LeasedTo s.reading candidate.id (s.ownerAt p i) →
          s.workerStep p' i' .proceed = some s' →
          s'.backends = s.backends ∧ s'.runs = s.runs ∧ s'.phaseAt p' i' = some .resting) := by
  have howner := ownerAt_of_source hpool hsource i
  have howner' := ownerAt_of_source hpool' hsource' i'
  have hiff : s.ownerAt p i = s.ownerAt p' i' ↔ s.driverName d = s.driverName d' ∧ i = i' := by
    rw [howner, howner']
    constructor
    · exact ownerName_inj
    · rintro ⟨hname, rfl⟩
      rw [hname]
  refine ⟨hiff, fun hdifferent candidate driver b s' hphase hdriver hb hleased hstep => ?_⟩
  have hne : s.ownerAt p i ≠ "" := by
    rw [howner]
    exact ownerName_ne_empty _ i
  have hother : s.ownerAt p' i' ≠ s.ownerAt p i := fun heq => hdifferent (hiff.mp heq.symm)
  exact claim_refused hpool' hsource' hphase hdriver hb hleased hne hother hstep

/-- Two queues have drivers of their own over one store. Each loop is handed the job; the worker of the
one queue runs it, and the worker of the other one cannot claim it. -/
theorem workers_share_owner_iff_of_peers :
    let start : System Work := founded drilling .byPriority ⟨300, 0⟩ 0 ⟨"one", 0, []⟩
    let events : List (Event Work) := [.request (.addDriver ⟨"two", 0, []⟩),
      .request (.addQueue ⟨1, 600, 16⟩), .request (.addQueue ⟨1, 600, 16⟩),
      .request (.setDriver 0 0), .request (.setDriver 1 1),
      .request (.put 0 0 (Backend.sampleJob "job")), .request (.start 0 0), .request (.start 1 0),
      .move (.call 0 .proceed), .move (.call 1 .proceed), .move (.loop 0 0 .proceed),
      .move (.loop 0 0 .proceed), .move (.loop 1 0 .proceed),
      .move (.loop 1 0 .proceed), .move (.worker 0 0 .handle), .move (.worker 0 0 .proceed),
      .move (.worker 0 0 .take), .move (.worker 0 0 .proceed), .move (.worker 1 0 .handle),
      .move (.worker 1 0 .proceed), .move (.worker 1 0 .take)]
    ∃ s s', events.foldlM handle start = some s ∧ s.ownerAt 0 0 ≠ s.ownerAt 1 0 ∧
      s.workerStep 1 0 .proceed = some s' ∧ s'.backends = s.backends ∧
      s'.phaseAt 1 0 = some .resting := by
  intro start events
  have hrun : ((events.foldlM handle start).any fun s =>
      (s.workerStep 1 0 .proceed).any fun s' => (s.pools[0]?).any fun pool =>
        (s.pools[1]?).any fun pool' => (s.given? (.worker 1 0)).any fun candidate =>
          (s.drivers[1]?).any fun driver => (s.backends[driver.backend]?).any fun b =>
            decide (s.sourceDriver pool.source = some 0 ∧ s.sourceDriver pool'.source = some 1 ∧
              s.driverName 0 ≠ s.driverName 1) &&
            b.storage.memory?.any fun m => (m.lookup? candidate.id).any fun e =>
              e.record.status.modTime.any fun t =>
                decide (e.record.status.inProgress = true ∧
                  e.record.status.owner = s.ownerAt 0 0 ∧ e.record.status.completed = false ∧
                  e.record.status.failed = false ∧
                  s.reading.wall.since t < b.lease.lockTimeout)) = true := by
    decide +kernel
  rcases (Option.any_eq_true _ _).mp hrun with ⟨s, hs, hrest⟩
  rcases (Option.any_eq_true _ _).mp hrest with ⟨s', hstep, hrest⟩
  rcases (Option.any_eq_true _ _).mp hrest with ⟨pool, hpool, hrest⟩
  rcases (Option.any_eq_true _ _).mp hrest with ⟨pool', hpool', hrest⟩
  rcases (Option.any_eq_true _ _).mp hrest with ⟨candidate, hcandidate, hrest⟩
  rcases (Option.any_eq_true _ _).mp hrest with ⟨driver, hdriver, hrest⟩
  rcases (Option.any_eq_true _ _).mp hrest with ⟨b, hb, hchecks⟩
  rcases (Bool.and_eq_true _ _).mp hchecks with ⟨hsources, hstored⟩
  rcases of_decide_eq_true hsources with ⟨hsource, hsource', hnames⟩
  have hleased : b.LeasedTo s.reading candidate.id (s.ownerAt 0 0) := by
    rcases (Option.any_eq_true _ _).mp hstored with ⟨m, hm, hheld⟩
    rcases (Option.any_eq_true _ _).mp hheld with ⟨e, he, htimes⟩
    rcases (Option.any_eq_true _ _).mp htimes with ⟨t, ht, hstatus⟩
    rcases of_decide_eq_true hstatus with ⟨hbusy, howner, hcompleted, hfailed, hlive⟩
    rcases Storage.memory?_eq_some.mp hm with ⟨dispatch, hstorage⟩
    exact .memory hstorage ⟨e, he, hbusy, howner, ht, hcompleted, hfailed⟩ hlive
  have hdifferent : ¬ (s.driverName 0 = s.driverName 1 ∧ 0 = 0) := fun h => hnames h.1
  rcases workers_share_owner_iff 0 0 hpool hsource hpool' hsource' with ⟨hiff, hrefuses⟩
  rcases hrefuses hdifferent candidate driver b s' (phaseAt_of_given? hcandidate) hdriver hb hleased
    hstep with ⟨hbackends, -, hrests⟩
  exact ⟨s, s', hs, fun heq => hdifferent (hiff.mp heq), hstep, hbackends, hrests⟩

/-- Two queues are given one driver. The first workers of their pools have one owner, and the lock that
the one holds is the other one's to renew: both run the job at once. -/
theorem one_driver_of_two_queues_runs_job_twice :
    let start : System Work := founded drilling .byPriority ⟨300, 0⟩ 0 ⟨"one", 0, []⟩
    let events : List (Event Work) := [.request (.addQueue ⟨1, 600, 16⟩),
      .request (.addQueue ⟨1, 600, 16⟩), .request (.setDriver 0 0), .request (.setDriver 1 0),
      .request (.put 0 0 (Backend.sampleJob "job")), .request (.start 0 0), .request (.start 1 0),
      .move (.call 0 .proceed), .move (.call 1 .proceed), .move (.loop 0 0 .proceed),
      .move (.loop 0 0 .proceed), .move (.loop 1 0 .proceed),
      .move (.loop 1 0 .proceed), .move (.worker 0 0 .handle), .move (.worker 0 0 .proceed),
      .move (.worker 0 0 .take), .move (.worker 0 0 .proceed), .move (.worker 0 0 .proceed),
      .move (.worker 0 0 .proceed), .move (.worker 1 0 .handle), .move (.worker 1 0 .proceed),
      .move (.worker 1 0 .take), .move (.worker 1 0 .proceed), .move (.worker 1 0 .proceed),
      .move (.worker 1 0 .proceed)]
    ∃ s, events.foldlM handle start = some s ∧ s.ownerAt 0 0 = s.ownerAt 1 0 ∧
      s.Runs "job" 0 0 ∧ s.Runs "job" 1 0 := by
  intro start events
  have hrun : ((events.foldlM handle start).any fun s =>
      decide (s.ownerAt 0 0 = s.ownerAt 1 0 ∧ s.Runs "job" 0 0 ∧ s.Runs "job" 1 0)) = true := by
    decide +kernel
  rcases (Option.any_eq_true _ _).mp hrun with ⟨s, hs, hchecks⟩
  exact ⟨s, hs, of_decide_eq_true hchecks⟩

end System
end LeaseQueue
