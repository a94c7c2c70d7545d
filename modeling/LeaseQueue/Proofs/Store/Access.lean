import LeaseQueue.Proofs.Job.Lock
import LeaseQueue.Store.Backend
import LeaseQueue.Work.Basic
/-!
# Operations on a backend

Whatever driver of a backend asks for an operation, the answer and the backend
afterwards depend on the operation alone, on the readings of the clocks, and on
whether the operation was called off. A run is any sequence of operations, of
one driver or of several.
-/

namespace LeaseQueue

/-- What a driver asks of its backend. -/
inductive Operation (β : Type) where
  | save (job : Job β)
  | get (id : String)
  | next
  | lock (id owner : String)
  | unlock (id owner : String)
  | tally
  | infos
  /-- To go on with a list of all jobs. -/
  | pull (listing : Listing)

structure Access (β : Type) where
  operation : Operation β
  cancelled : Bool
  reading : Reading

inductive Answer (β : Type) where
  | done (r : Except StoreError Unit)
  /-- The operation broke off half-way. -/
  | broken
  | job (j : Option (Job β))
  | tally (t : Tally)
  | infos (l : List StatusInfo)
  | pulled (i : Option StatusInfo) (rest : Listing)

namespace Answer

def refusal? {β : Type} : Answer β → Option StoreError
  | done (.error e) => some e
  | _ => none

theorem eq_of_refusal? {β : Type} {a : Answer β} {e : StoreError} (h : a.refusal? = some e) :
    a = done (.error e) := by
  unfold refusal? at h
  split at h
  · cases h
    rfl
  · cases h

/-- The id of the job that was handed out or looked up, if there was one. -/
def given? {β : Type} : Answer β → Option (Option String)
  | job j => some (j.map Job.id)
  | _ => none

theorem exists_of_given? {β : Type} {a : Answer β} {id? : Option String}
    (h : a.given? = some id?) : ∃ j, a = job j ∧ j.map Job.id = id? := by
  cases a with
  | job j => exact ⟨j, rfl, Option.some.inj h⟩
  | _ => cases h

end Answer

namespace Backend

variable {β : Type}

/-- The answer to an operation that changes the backend unless it fails. -/
def settle (b : Backend β) : Except StoreError (Backend β) → Answer β × Backend β
  | .ok b' => (.done (.ok ()), b')
  | .error e => (.done (.error e), b)

def settleLock (b : Backend β) : LockChange StoreError (Backend β) → Answer β × Backend β
  | .made b' => (.done (.ok ()), b')
  | .refused e => (.done (.error e), b)
  | .broken b' => (.broken, b')

variable [Body β]

def access (b : Backend β) (a : Access β) : Answer β × Backend β :=
  match a.operation with
  | .save j => b.settle (b.save a.cancelled a.reading j)
  | .get id => (.job (b.get a.cancelled id), b)
  | .next => (.job (b.next a.cancelled a.reading).1, (b.next a.cancelled a.reading).2)
  | .lock id owner => b.settleLock (b.lock a.cancelled a.reading id owner)
  | .unlock id owner => b.settleLock (b.unlock a.cancelled a.reading id owner)
  | .tally => (.tally (b.tally a.cancelled), b)
  | .infos => (.infos (b.infos a.cancelled), b)
  | .pull l => (.pulled (b.pull a.cancelled l).1 (b.pull a.cancelled l).2, b)

def after (b : Backend β) (a : Access β) : Backend β := (b.access a).2

def run (b : Backend β) (accesses : List (Access β)) : Backend β := accesses.foldl after b

@[simp] theorem run_nil (b : Backend β) : b.run [] = b := rfl

@[simp] theorem run_cons (b : Backend β) (a : Access β) (rest : List (Access β)) :
    b.run (a :: rest) = (b.after a).run rest := rfl

theorem run_append (b : Backend β) (first rest : List (Access β)) :
    b.run (first ++ rest) = (b.run first).run rest :=
  List.foldl_append

end Backend

theorem keyBefore_iff (a b : Int × Nat) :
    Discipline.keyBefore a b = true ↔ a.1 < b.1 ∨ (a.1 = b.1 ∧ a.2 < b.2) := by
  simp [Discipline.keyBefore]

/-!
# What an operation does to a store in memory

An operation leaves a store in memory as it is, replaces one entry, or adds an
entry for a new job at the end of the order.
-/

namespace Memory

/-- The store with another entry for a job that it has. -/
def replace (m : Memory) (id : String) (e : Entry) : Memory := { m with jobs := m.jobs.put id e }

def append (m : Memory) (r : Record) : Memory :=
  { jobs := m.jobs.put r.id ⟨m.nextSeq, r, none⟩
    order := m.order ++ [(m.nextSeq, r.id)]
    nextSeq := m.nextSeq + 1 }

@[simp] theorem lookup?_replace (m : Memory) (id other : String) (e : Entry) :
    (m.replace id e).lookup? other = if id = other then some e else m.lookup? other := by
  simp [replace, lookup?]

@[simp] theorem lookup?_append (m : Memory) (r : Record) (other : String) :
    (m.append r).lookup? other =
      if r.id = other then some ⟨m.nextSeq, r, none⟩ else m.lookup? other := by
  simp [append, lookup?]

/-!
## Operations that succeed
-/

theorem save_cases {m m' : Memory} {r : Record} {now : Timestamp} {timeout : Nat}
    (h : m.save r now timeout = .ok m') :
    (∃ e, m.lookup? r.id = some e ∧
      e.record.status.checkSave r.status r.id now timeout = .ok () ∧
      m' = m.replace r.id { e with record := r.withStatus (e.record.status.merge r.status) }) ∨
    (m.lookup? r.id = none ∧ m' = m.append r) := by
  unfold save at h
  cases he : m.lookup? r.id with
  | none =>
      rw [he] at h
      cases h
      exact Or.inr ⟨rfl, rfl⟩
  | some e =>
      rw [he] at h
      cases hcheck : e.record.status.checkSave r.status r.id now timeout with
      | error err =>
          simp only [hcheck] at h
          cases h
      | ok _ =>
          simp only [hcheck] at h
          cases h
          exact Or.inl ⟨e, rfl, hcheck, rfl⟩

theorem least_mem {d : Discipline} {l : List (String × Entry)} {p : String × Entry}
    (h : least d l = some p) : p ∈ l := by
  induction l generalizing p with
  | nil => cases h
  | cons q rest ih =>
      unfold least at h
      cases hrest : least d rest with
      | none =>
          rw [hrest] at h
          cases h
          exact List.mem_cons_self
      | some r =>
          simp only [hrest] at h
          split at h
          · cases h
            exact List.mem_cons_of_mem q (ih hrest)
          · cases h
            exact List.mem_cons_self

theorem candidate?_cases {m : Memory} {d : Discipline} {now : Reading}
    {lease : LeaseSettings} {p : String × Entry}
    (h : m.candidate? d now lease = some p) :
    p ∈ m.jobs.entries ∧ isEligible p.2 now lease = true := by
  have hmem := least_mem h
  rcases List.mem_filter.mp hmem with ⟨hentries, heligible⟩
  exact ⟨hentries, heligible⟩

theorem next_cases {m m' : Memory} {d : Discipline} {now : Reading}
    {lease : LeaseSettings} {r : Record} (h : m.next d now lease = some (r, m')) :
    ∃ id e, m.candidate? d now lease = some (id, e) ∧ r = e.record ∧
      m' = m.replace id { e with dispatchedAt := some now.ticks } := by
  unfold next at h
  cases hcandidate : m.candidate? d now lease with
  | none =>
      rw [hcandidate] at h
      cases h
  | some p =>
      rcases p with ⟨id, e⟩
      rw [hcandidate] at h
      cases h
      exact ⟨id, e, rfl, rfl, rfl⟩

theorem lock_cases {m m' : Memory} {id owner : String} {now : Timestamp} {timeout : Nat}
    (h : m.lock id owner now timeout = .made m') :
    ∃ e s, m.lookup? id = some e ∧ e.record.status.lock id owner now timeout = .made s ∧
      m' = m.replace id { e with record := e.record.withStatus s } := by
  unfold lock at h
  cases he : m.lookup? id with
  | none =>
      rw [he] at h
      cases h
  | some e =>
      simp only [he, LockChange.map_eq_made, LockChange.mapRefusal_eq_made] at h
      rcases h with ⟨s, hs, rfl⟩
      exact ⟨e, s, rfl, hs, rfl⟩

theorem lock_broken_cases {m m' : Memory} {id owner : String} {now : Timestamp} {timeout : Nat}
    (h : m.lock id owner now timeout = .broken m') :
    ∃ e s, m.lookup? id = some e ∧ e.record.status.lock id owner now timeout = .broken s ∧
      m' = m.replace id { e with record := e.record.withStatus s } := by
  unfold lock at h
  cases he : m.lookup? id with
  | none =>
      rw [he] at h
      cases h
  | some e =>
      simp only [he, LockChange.map_eq_broken, LockChange.mapRefusal_eq_broken] at h
      rcases h with ⟨s, hs, rfl⟩
      exact ⟨e, s, rfl, hs, rfl⟩

theorem unlock_cases {m m' : Memory} {id owner : String} {now : Timestamp}
    (h : m.unlock id owner now = .made m') :
    ∃ e s, m.lookup? id = some e ∧ e.record.status.unlock id owner now = .made s ∧
      m' = m.replace id { e with record := e.record.withStatus s } := by
  unfold unlock at h
  cases he : m.lookup? id with
  | none =>
      rw [he] at h
      cases h
  | some e =>
      simp only [he, LockChange.map_eq_made, LockChange.mapRefusal_eq_made] at h
      rcases h with ⟨s, hs, rfl⟩
      exact ⟨e, s, rfl, hs, rfl⟩

theorem unlock_broken_cases {m m' : Memory} {id owner : String} {now : Timestamp}
    (h : m.unlock id owner now = .broken m') :
    ∃ e s, m.lookup? id = some e ∧ e.record.status.unlock id owner now = .broken s ∧
      m' = m.replace id { e with record := e.record.withStatus s } := by
  unfold unlock at h
  cases he : m.lookup? id with
  | none =>
      rw [he] at h
      cases h
  | some e =>
      simp only [he, LockChange.map_eq_broken, LockChange.mapRefusal_eq_broken] at h
      rcases h with ⟨s, hs, rfl⟩
      exact ⟨e, s, rfl, hs, rfl⟩

variable {β : Type} [Body β]

/-- What an operation may do to a store in memory. -/
inductive Change (lease : LeaseSettings) (now : Reading) :
    Operation β → Memory → Memory → Prop where
  | none (op : Operation β) (m : Memory) : Change lease now op m m
  /-- A record is saved over the stored one. -/
  | saved {j : Job β} {r : Record} {m : Memory} {e : Entry} :
      j.toRecord = .ok r → m.lookup? r.id = some e →
      e.record.status.checkSave r.status r.id now.wall lease.lockTimeout = .ok () →
      Change lease now (.save j) m
        (m.replace r.id { e with record := r.withStatus (e.record.status.merge r.status) })
  /-- A record is saved for the first time. -/
  | added {j : Job β} {r : Record} {m : Memory} :
      j.toRecord = .ok r → m.lookup? r.id = Option.none →
      Change lease now (.save j) m (m.append r)
  /-- A job is handed out. -/
  | handed {m : Memory} {id : String} {e : Entry} :
      (id, e) ∈ m.jobs.entries → isEligible e now lease = true →
      Change lease now .next m (m.replace id { e with dispatchedAt := some now.ticks })
  /-- A lock is taken or renewed. -/
  | locked {m : Memory} {id owner : String} {e : Entry} {s : Status} :
      m.lookup? id = some e →
      e.record.status.lock id owner now.wall lease.lockTimeout = .made s →
      Change lease now (.lock id owner) m
        (m.replace id { e with record := e.record.withStatus s })
  | lockBroken {m : Memory} {id owner : String} {e : Entry} {s : Status} :
      m.lookup? id = some e →
      e.record.status.lock id owner now.wall lease.lockTimeout = .broken s →
      Change lease now (.lock id owner) m
        (m.replace id { e with record := e.record.withStatus s })
  /-- A lock is released. -/
  | unlocked {m : Memory} {id owner : String} {e : Entry} {s : Status} :
      m.lookup? id = some e →
      e.record.status.unlock id owner now.wall = .made s →
      Change lease now (.unlock id owner) m
        (m.replace id { e with record := e.record.withStatus s })
  | unlockBroken {m : Memory} {id owner : String} {e : Entry} {s : Status} :
      m.lookup? id = some e →
      e.record.status.unlock id owner now.wall = .broken s →
      Change lease now (.unlock id owner) m
        (m.replace id { e with record := e.record.withStatus s })

end Memory

namespace Backend

variable {β : Type}

def onMemory (b : Backend β) (d : Discipline) (m : Memory) : Backend β :=
  { b with storage := .memory d m }

theorem onMemory_self {b : Backend β} {d : Discipline} {m : Memory}
    (hb : b.storage = .memory d m) : b.onMemory d m = b := by
  cases b
  cases hb
  rfl

theorem record?_onMemory (b : Backend β) (d : Discipline) (m : Memory)
    (cancelled : Bool) (id : String) :
    (b.onMemory d m).record? cancelled id = (m.lookup? id).map Entry.record := rfl

theorem get_onMemory (b : Backend β) (d : Discipline) (m : Memory)
    (cancelled : Bool) (id : String) :
    (b.onMemory d m).get cancelled id =
      ((m.lookup? id).map Entry.record).bind b.registry.build? := rfl

/-- The answer to an operation on a store in memory that changes the store unless it fails. -/
def settleOn (b : Backend β) (d : Discipline) (m : Memory) :
    Except StoreError Memory → Answer β × Backend β
  | .ok m' => (.done (.ok ()), b.onMemory d m')
  | .error e => (.done (.error e), b.onMemory d m)

def settleLockOn (b : Backend β) (d : Discipline) (m : Memory) :
    LockChange StoreError Memory → Answer β × Backend β
  | .made m' => (.done (.ok ()), b.onMemory d m')
  | .refused e => (.done (.error e), b.onMemory d m)
  | .broken m' => (.broken, b.onMemory d m')

theorem settleLock_map (b : Backend β) (d : Discipline) (m : Memory)
    (r : LockChange StoreError Memory) :
    (b.onMemory d m).settleLock (r.map (b.onMemory d)) = b.settleLockOn d m r := by
  cases r <;> rfl

theorem settle_bind (b : Backend β) (d : Discipline) (m : Memory)
    (r : Except StoreError Memory) :
    (b.onMemory d m).settle (r >>= fun m' => pure (b.onMemory d m')) =
      b.settleOn d m r := by
  cases r <;> rfl

variable [Body β]

theorem access_lock (b : Backend β) (d : Discipline) (m : Memory)
    (id owner : String) (cancelled : Bool) (now : Reading) :
    (b.onMemory d m).access ⟨.lock id owner, cancelled, now⟩ =
      b.settleLockOn d m (m.lock id owner now.wall b.lease.lockTimeout) :=
  settleLock_map b d m _

theorem access_unlock (b : Backend β) (d : Discipline) (m : Memory)
    (id owner : String) (cancelled : Bool) (now : Reading) :
    (b.onMemory d m).access ⟨.unlock id owner, cancelled, now⟩ =
      b.settleLockOn d m (m.unlock id owner now.wall) :=
  settleLock_map b d m _

theorem save_onMemory (b : Backend β) (d : Discipline) (m : Memory)
    (cancelled : Bool) (now : Reading) {j : Job β} {r : Record}
    (hj : j.toRecord = .ok r) :
    (b.onMemory d m).save cancelled now j =
      m.save r now.wall b.lease.lockTimeout >>= fun m' => pure (b.onMemory d m') := by
  unfold save
  rw [hj]
  rfl

theorem access_save (b : Backend β) (d : Discipline) (m : Memory)
    (cancelled : Bool) (now : Reading) {j : Job β} {r : Record}
    (hj : j.toRecord = .ok r) :
    (b.onMemory d m).access ⟨.save j, cancelled, now⟩ =
      b.settleOn d m (m.save r now.wall b.lease.lockTimeout) := by
  show (b.onMemory d m).settle ((b.onMemory d m).save cancelled now j) = _
  rw [save_onMemory b d m cancelled now hj]
  exact settle_bind b d m _

theorem access_save_unwritable (b : Backend β) (d : Discipline) (m : Memory)
    (cancelled : Bool) (now : Reading) {j : Job β} {reason : String}
    (hj : j.toRecord = .error reason) :
    (b.onMemory d m).access ⟨.save j, cancelled, now⟩ =
      (.done (.error (.unwritable reason)), b.onMemory d m) := by
  show (b.onMemory d m).settle ((b.onMemory d m).save cancelled now j) = _
  unfold save
  rw [hj]
  rfl

theorem access_next (b : Backend β) (d : Discipline) (m : Memory) (now : Reading) :
    (b.onMemory d m).access ⟨.next, false, now⟩ =
      match m.next d now b.lease with
      | some (r, m') => (.job (b.registry.build? r), b.onMemory d m')
      | none => (.job none, b.onMemory d m) := by
  show (Answer.job ((b.onMemory d m).next false now).1, ((b.onMemory d m).next false now).2) = _
  unfold next onMemory
  cases hnext : m.next d now b.lease with
  | none => simp [hnext]
  | some p => simp [hnext]

/-- An operation changes nothing of a backend with a store in memory but the store, and that only as
the operation may. -/
theorem exists_change (b : Backend β) (d : Discipline) (m : Memory) (a : Access β) :
    ∃ m', (b.onMemory d m).after a = b.onMemory d m' ∧
      Memory.Change b.lease a.reading a.operation m m' := by
  rcases a with ⟨op, cancelled, now⟩
  have hsame : ∃ m', b.onMemory d m = b.onMemory d m' ∧
      Memory.Change b.lease now op m m' := ⟨m, rfl, .none op m⟩
  unfold after
  cases op with
  | save j =>
      cases hj : j.toRecord with
      | error reason =>
          rw [access_save_unwritable b d m cancelled now hj]
          exact hsame
      | ok r =>
          rw [access_save b d m cancelled now hj]
          cases hsave : m.save r now.wall b.lease.lockTimeout with
          | error e => exact hsame
          | ok m' =>
              rcases Memory.save_cases hsave with ⟨e, he, hcheck, rfl⟩ | ⟨he, rfl⟩
              · exact ⟨_, rfl, .saved hj he hcheck⟩
              · exact ⟨_, rfl, .added hj he⟩
  | next =>
      cases cancelled with
      | true => exact hsame
      | false =>
          rw [access_next]
          cases hnext : m.next d now b.lease with
          | none => exact hsame
          | some p =>
              rcases p with ⟨r, m'⟩
              rcases Memory.next_cases hnext with ⟨id, e, hcandidate, -, rfl⟩
              rcases Memory.candidate?_cases hcandidate with ⟨hmem, heligible⟩
              exact ⟨_, rfl, .handed hmem heligible⟩
  | lock id owner =>
      rw [access_lock]
      cases hlock : m.lock id owner now.wall b.lease.lockTimeout with
      | refused e => exact hsame
      | made m' =>
          rcases Memory.lock_cases hlock with ⟨e, s, he, hs, rfl⟩
          exact ⟨_, rfl, .locked he hs⟩
      | broken m' =>
          rcases Memory.lock_broken_cases hlock with ⟨e, s, he, hs, rfl⟩
          exact ⟨_, rfl, .lockBroken he hs⟩
  | unlock id owner =>
      rw [access_unlock]
      cases hunlock : m.unlock id owner now.wall with
      | refused e => exact hsame
      | made m' =>
          rcases Memory.unlock_cases hunlock with ⟨e, s, he, hs, rfl⟩
          exact ⟨_, rfl, .unlocked he hs⟩
      | broken m' =>
          rcases Memory.unlock_broken_cases hunlock with ⟨e, s, he, hs, rfl⟩
          exact ⟨_, rfl, .unlockBroken he hs⟩
  | get id => exact hsame
  | tally => exact hsame
  | infos => exact hsame
  | pull l => exact hsame

/-- A job that nobody has touched, of a type that no registry needs to know. -/
def sampleJob (id : String) : Job Work := ⟨.named id (.named "sample" 0), .kept .null⟩

def plainJob (id : String) : Job Work := ⟨.named id (.named "custom" 3), .kept (.object [])⟩

end Backend
end LeaseQueue
